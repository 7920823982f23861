import VRAdmin.Foundation.CString

/-! # Little-endian words of four bytes -/

namespace Foundation

/-- The four bytes of a word, the lowest first. -/
def bytesLE (n : Nat) : Bytes :=
  [UInt8.ofNat n, UInt8.ofNat (n / 2 ^ 8), UInt8.ofNat (n / 2 ^ 16), UInt8.ofNat (n / 2 ^ 24)]

/-- The word put together with shifts and `or`; missing bytes are zero. -/
def wordLE (bytes : Bytes) : UInt32 :=
  let byte (i : Nat) : UInt32 := (bytes.getD i 0).toUInt32
  byte 0 ||| byte 1 <<< 8 ||| byte 2 <<< 16 ||| byte 3 <<< 24

/-- Joining a low part below `2 ^ i` with a shifted one is an addition. -/
theorem or_shiftLeft_eq_add {low i : Nat} (h : low < 2 ^ i) (high : Nat) :
    low ||| high <<< i = low + high * 2 ^ i := by
  rw [Nat.or_comm, ← Nat.shiftLeft_add_eq_or_of_lt h, Nat.shiftLeft_eq, Nat.add_comm]

theorem toNat_shifted (b : UInt8) {i : Nat} (hi : i ≤ 24) (k : UInt32) (hk : k.toNat = i) :
    (b.toUInt32 <<< k).toNat = b.toNat <<< i := by
  have hb := b.toNat_lt
  have hpow : 2 ^ i ≤ 2 ^ 24 := Nat.pow_le_pow_right (by decide) hi
  have hmul : b.toNat * 2 ^ i ≤ 255 * 2 ^ 24 := Nat.mul_le_mul (by omega) hpow
  rw [UInt32.toNat_shiftLeft, UInt8.toNat_toUInt32, hk, Nat.mod_eq_of_lt (show i < 32 by omega),
    Nat.shiftLeft_eq, Nat.mod_eq_of_lt (by omega)]

theorem wordLE_toNat (b₀ b₁ b₂ b₃ : UInt8) :
    (wordLE [b₀, b₁, b₂, b₃]).toNat =
      b₀.toNat + b₁.toNat * 2 ^ 8 + b₂.toNat * 2 ^ 16 + b₃.toNat * 2 ^ 24 := by
  have h0 := b₀.toNat_lt
  have h1 := b₁.toNat_lt
  have h2 := b₂.toNat_lt
  have hs1 : (b₁.toUInt32 <<< 8).toNat = b₁.toNat <<< 8 := toNat_shifted b₁ (by decide) 8 rfl
  have hs2 : (b₂.toUInt32 <<< 16).toNat = b₂.toNat <<< 16 := toNat_shifted b₂ (by decide) 16 rfl
  have hs3 : (b₃.toUInt32 <<< 24).toNat = b₃.toNat <<< 24 := toNat_shifted b₃ (by decide) 24 rfl
  have hl1 := or_shiftLeft_eq_add (show b₀.toNat < 2 ^ 8 by omega) b₁.toNat
  have hl2 := or_shiftLeft_eq_add
    (show b₀.toNat + b₁.toNat * 2 ^ 8 < 2 ^ 16 by omega) b₂.toNat
  have hl3 := or_shiftLeft_eq_add
    (show b₀.toNat + b₁.toNat * 2 ^ 8 + b₂.toNat * 2 ^ 16 < 2 ^ 24 by omega) b₃.toNat
  show (b₀.toUInt32 ||| b₁.toUInt32 <<< 8 ||| b₂.toUInt32 <<< 16 ||| b₃.toUInt32 <<< 24).toNat = _
  rw [UInt32.toNat_or, UInt32.toNat_or, UInt32.toNat_or, UInt8.toNat_toUInt32, hs1, hs2, hs3, hl1,
    hl2, hl3]

theorem wordLE_bytesLE {n : Nat} (h : n < 2 ^ 32) : wordLE (bytesLE n) = UInt32.ofNat n := by
  apply UInt32.toNat_inj.mp
  rw [bytesLE, wordLE_toNat]
  simp only [UInt8.toNat_ofNat', UInt32.toNat_ofNat']
  omega

end Foundation
