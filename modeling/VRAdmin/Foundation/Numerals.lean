import VRAdmin.Foundation.CString

/-! # Decimal numerals

The numeral that a formatter writes is read back by the digit loop of a parser. Only
the saturation of `atoll` separates the two.
-/

namespace Foundation

theorem digit_byte {c : Char} (h : c.isDigit = true) :
    c.val.toUInt8.toNat = c.toNat ∧ 48 ≤ c.toNat ∧ c.toNat ≤ 57 := by
  obtain ⟨hlow, hhigh⟩ : 48 ≤ c.val.toNat ∧ c.val.toNat ≤ 57 := by
    simpa [Char.isDigit, UInt32.le_iff_toNat_le] using h
  refine ⟨?_, hlow, hhigh⟩
  rw [UInt32.toNat_toUInt8]
  exact Nat.mod_eq_of_lt (by omega)

theorem isDigit_toDigits {n : Nat} {c : Char} (h : c ∈ Nat.toDigits 10 n) : c.isDigit = true :=
  Nat.isDigit_of_mem_toDigits (by decide) (by decide) h

theorem isDigit_decimal {n : Nat} {b : UInt8} (h : b ∈ decimal n) : isDigit b = true := by
  obtain ⟨c, hc, rfl⟩ := List.mem_map.mp h
  obtain ⟨hbyte, hlow, hhigh⟩ := digit_byte (isDigit_toDigits hc)
  simp only [isDigit, Bool.and_eq_true, decide_eq_true_eq, UInt8.le_iff_toNat_le, hbyte]
  exact ⟨hlow, hhigh⟩

theorem decimal_ne_nil (n : Nat) : decimal n ≠ [] := by
  intro h
  exact Nat.toDigits_ne_nil (List.map_eq_nil_iff.mp h)

theorem decimal_length_le {n k : Nat} (hk : 0 < k) (h : n < 10 ^ k) : (decimal n).length ≤ k := by
  rw [decimal, List.length_map]
  exact (Nat.length_toDigits_le_iff (by decide) hk).mpr h

theorem decimal_noNul (n : Nat) : (0 : UInt8) ∉ decimal n := by
  intro h
  have hdigit := isDigit_decimal h
  exact absurd hdigit (by decide)

/-- The digit loop is the inverse of the formatter. -/
theorem digitsValue_decimal (n : Nat) : digitsValue (decimal n) = n := by
  have hloop : ∀ (digits : List Char) (start : Nat), (∀ c ∈ digits, c.isDigit = true) →
      (digits.map fun c => c.val.toUInt8).foldl (fun acc c => 10 * acc + (c.toNat - 48)) start =
        Nat.ofDigitChars 10 digits start := by
    intro digits
    induction digits with
    | nil => simp
    | cons c digits ih =>
        intro start hdigits
        rw [List.map_cons, List.foldl_cons, ih _ fun d hd => hdigits d (List.mem_cons_of_mem c hd),
          Nat.ofDigitChars_cons, (digit_byte (hdigits c List.mem_cons_self)).1]
        rfl
  rw [digitsValue, decimal, hloop _ _ fun c hc => isDigit_toDigits hc, Nat.ofDigitChars_ten_toDigits]

theorem decimal_inj {m n : Nat} (h : decimal m = decimal n) : m = n := by
  rw [← digitsValue_decimal m, h, digitsValue_decimal]

/-- `%lu` as a string. -/
def numeral (n : Nat) : CString := ⟨decimal n, decimal_noNul n⟩

theorem isSpace_digit {b : UInt8} (h : isDigit b = true) : isSpace b = false := by
  simp only [isDigit, isSpace, Bool.and_eq_true, decide_eq_true_eq, Bool.or_eq_false_iff,
    beq_eq_false_iff_ne, Bool.and_eq_false_iff, decide_eq_false_iff_not, UInt8.le_iff_toNat_le,
    ne_eq, ← UInt8.toNat_inj, UInt8.toNat_ofNat, Nat.reducePow, Nat.reduceMod] at h ⊢
  omega

/-- A text of digits has no sign, so `atoll` reads the value of the digits. -/
theorem atoll_digits {s : CString} (hne : s.bytes ≠ [])
    (hdigits : ∀ b ∈ s.bytes, isDigit b = true) :
    atoll s = min (digitsValue s.bytes : Int) (2 ^ 63 - 1) := by
  have hall : s.bytes.takeWhile isDigit = s.bytes := List.takeWhile_eq_self_iff.mpr hdigits
  have hvalue : atoll s = max (-2 ^ 63) (min (digitsValue s.bytes : Int) (2 ^ 63 - 1)) := by
    rw [atoll]
    cases hs : s.bytes with
    | nil => exact absurd hs hne
    | cons b rest =>
        have hb : isDigit b = true := hdigits b (hs ▸ List.mem_cons_self)
        have hminus : b ≠ 45 := by
          rintro rfl
          exact absurd hb (by decide)
        have hplus : b ≠ 43 := by
          rintro rfl
          exact absurd hb (by decide)
        rw [List.dropWhile_cons_of_neg (by rw [isSpace_digit hb]; exact Bool.false_ne_true)]
        split
        · next heq => exact absurd (List.cons.inj heq).1 hminus
        · next heq => exact absurd (List.cons.inj heq).1 hplus
        · rw [← hs]
          dsimp only
          rw [hall]
  omega

/-- A numeral is read back up to the largest `long long`. -/
theorem atoll_numeral (n : Nat) : atoll (numeral n) = min (n : Int) (2 ^ 63 - 1) := by
  have hatoll := atoll_digits (s := numeral n) (decimal_ne_nil n) fun _ hb => isDigit_decimal hb
  rwa [show (numeral n).bytes = decimal n from rfl, digitsValue_decimal] at hatoll

end Foundation
