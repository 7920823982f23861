import VRAdmin.Foundation.PrefixCode
import VRAdmin.Service.VRMode

/-! # Java strings behind the native methods

Modified UTF-8 is a code of the UTF-16 units in one, two or three bytes, none of
them NUL. So `String8`, the parcel and the C strings of vrserver carry every Java
string whole, and no two strings become one on the way.
-/

namespace VRAdmin

open Foundation

namespace JString

/-- The unit at the front of a text in modified UTF-8. -/
def readUnit : Bytes → Option (UInt16 × Bytes)
  | [] => none
  | one :: rest =>
      if one < 0x80 then some (.ofNat one.toNat, rest)
      else match rest with
        | [] => none
        | two :: rest =>
            if one < 0xE0 then some (.ofNat (one.toNat % 32 * 64 + two.toNat % 64), rest)
            else match rest with
              | [] => none
              | three :: rest =>
                  some (.ofNat ((one.toNat % 16 * 64 + two.toNat % 64) * 64 + three.toNat % 64),
                    rest)

/-- A mark above the bits of the value is added to it. -/
theorem or_toUInt8 {v : UInt16} {i k : Nat} (hv : v.toNat < 2 ^ i)
    (hk : 2 ^ i * k + v.toNat < 256) :
    (v ||| UInt16.ofNat (2 ^ i * k)).toUInt8 = UInt8.ofNat (2 ^ i * k + v.toNat) := by
  apply UInt8.toNat_inj.mp
  have hmark : (UInt16.ofNat (2 ^ i * k)).toNat = 2 ^ i * k := by
    rw [UInt16.toNat_ofNat']
    exact Nat.mod_eq_of_lt (by omega)
  rw [UInt16.toNat_toUInt8, UInt16.toNat_or, hmark, Nat.or_comm,
    ← Nat.two_pow_add_eq_or_of_lt hv, UInt8.toNat_ofNat']

theorem utfUnit_eq (u : UInt16) :
    utfUnit u =
      if u ≠ 0 ∧ u < 0x80 then [.ofNat u.toNat]
      else if u < 0x800 then [.ofNat (0xC0 + u.toNat / 64), .ofNat (0x80 + u.toNat % 64)]
      else [.ofNat (0xE0 + u.toNat / 4096), .ofNat (0x80 + u.toNat / 64 % 64),
        .ofNat (0x80 + u.toNat % 64)] := by
  have hbound := u.toNat_lt
  have hcont (v : UInt16) : ((v &&& 0x3F) ||| 0x80).toUInt8 = .ofNat (0x80 + v.toNat % 64) := by
    have hand : (v &&& 0x3F).toNat = v.toNat % 64 := Nat.and_two_pow_sub_one_eq_mod v.toNat 6
    have hor := or_toUInt8 (v := v &&& 0x3F) (i := 6) (k := 2) (by omega) (by omega)
    rw [hand] at hor
    exact hor
  have hshift6 : (u >>> 6).toNat = u.toNat / 64 := by
    simp [Nat.shiftRight_eq_div_pow]
  have hshift12 : (u >>> 12).toNat = u.toNat / 4096 := by
    simp [Nat.shiftRight_eq_div_pow]
  unfold utfUnit
  split
  · rfl
  · split
    · next h =>
        have hlt : u.toNat < 0x800 := UInt16.lt_iff_toNat_lt.mp h
        have hlead := or_toUInt8 (v := u >>> 6) (i := 6) (k := 3) (by omega) (by omega)
        rw [hshift6] at hlead
        dsimp only
        rw [hcont]
        exact congrArg (· :: _) hlead
    · have hlead := or_toUInt8 (v := u >>> 12) (i := 5) (k := 7) (by omega) (by omega)
      rw [hshift12] at hlead
      dsimp only
      rw [hcont, hcont, hshift6]
      exact congrArg (· :: _) hlead

theorem ofNat_lt_iff {n : Nat} (hn : n < 256) (c : UInt8) : UInt8.ofNat n < c ↔ n < c.toNat := by
  rw [UInt8.lt_iff_toNat_lt, UInt8.toNat_ofNat', Nat.mod_eq_of_lt hn]

theorem ofNat_ne_zero {n : Nat} (hn : n < 256) (hpos : 0 < n) : UInt8.ofNat n ≠ 0 := by
  intro h
  have hnat := congrArg UInt8.toNat h
  rw [UInt8.toNat_ofNat', Nat.mod_eq_of_lt hn] at hnat
  exact absurd hnat (Nat.ne_of_gt hpos)

theorem readUnit_utfUnit (u : UInt16) (rest : Bytes) :
    readUnit (utfUnit u ++ rest) = some (u, rest) := by
  have hbound := u.toNat_lt
  have hunit {n : Nat} (h : n = u.toNat) : some (UInt16.ofNat n, rest) = some (u, rest) := by
    rw [h, UInt16.ofNat_toNat]
  have hbyte {n : Nat} (h : n < 256) : (UInt8.ofNat n).toNat = n := by
    rw [UInt8.toNat_ofNat', Nat.mod_eq_of_lt h]
  have hascii {n : Nat} (h : n < 256) : UInt8.ofNat n < 0x80 ↔ n < 0x80 := ofNat_lt_iff h 0x80
  have htwo {n : Nat} (h : n < 256) : UInt8.ofNat n < 0xE0 ↔ n < 0xE0 := ofNat_lt_iff h 0xE0
  rw [utfUnit_eq]
  split
  · next h =>
      have hlt : u.toNat < 0x80 := UInt16.lt_iff_toNat_lt.mp h.2
      simp only [List.cons_append, List.nil_append, readUnit]
      rw [if_pos ((hascii (by omega)).mpr hlt), hbyte (by omega)]
      exact hunit rfl
  · split
    · next h =>
        have hlt : u.toNat < 0x800 := UInt16.lt_iff_toNat_lt.mp h
        simp only [List.cons_append, List.nil_append, readUnit]
        rw [if_neg (mt (hascii (by omega)).mp (by omega)), if_pos ((htwo (by omega)).mpr (by omega)),
          hbyte (by omega), hbyte (by omega)]
        exact hunit (by omega)
    · simp only [List.cons_append, List.nil_append, readUnit]
      rw [if_neg (mt (hascii (by omega)).mp (by omega)),
        if_neg (mt (htwo (by omega)).mp (by omega)), hbyte (by omega), hbyte (by omega),
        hbyte (by omega)]
      exact hunit (by omega)

theorem utfUnit_ne_nil (u : UInt16) : utfUnit u ≠ [] := by
  rw [utfUnit_eq]
  split
  · exact List.cons_ne_nil _ _
  · split <;> exact List.cons_ne_nil _ _

def modifiedUtf8 : PrefixCode UInt16 UInt8 where
  encode := utfUnit
  read := readUnit
  read_encode := readUnit_utfUnit
  encode_ne_nil := utfUnit_ne_nil

theorem utfChars_injective : Function.Injective utfChars := modifiedUtf8.encodeAll_injective

theorem utfUnit_noNul (u : UInt16) : (0 : UInt8) ∉ utfUnit u := by
  have hbound := u.toNat_lt
  have hne {n : Nat} (hn : n < 256) (hpos : 0 < n) : (0 : UInt8) ≠ UInt8.ofNat n :=
    (ofNat_ne_zero hn hpos).symm
  rw [utfUnit_eq]
  split
  · next h =>
      have hlt : u.toNat < 0x80 := UInt16.lt_iff_toNat_lt.mp h.2
      have hpos : 0 < u.toNat := Nat.pos_of_ne_zero fun hz => h.1 (UInt16.toNat_inj.mp hz)
      exact List.not_mem_cons_of_ne_of_not_mem (hne (by omega) hpos) (by simp)
  · split
    · next h =>
        have hlt : u.toNat < 0x800 := UInt16.lt_iff_toNat_lt.mp h
        exact List.not_mem_cons_of_ne_of_not_mem (hne (by omega) (by omega)) <|
          List.not_mem_cons_of_ne_of_not_mem (hne (by omega) (by omega)) (by simp)
    · exact List.not_mem_cons_of_ne_of_not_mem (hne (by omega) (by omega)) <|
        List.not_mem_cons_of_ne_of_not_mem (hne (by omega) (by omega)) <|
          List.not_mem_cons_of_ne_of_not_mem (hne (by omega) (by omega)) (by simp)

theorem utfChars_noNul (s : JString) : (0 : UInt8) ∉ s.utfChars := by
  intro hmem
  obtain ⟨u, -, hu⟩ := List.mem_flatMap.mp hmem
  exact utfUnit_noNul u hu

/-- The text that a native method holds for a Java string. -/
def text (s : JString) : CString := ⟨s.utfChars, s.utfChars_noNul⟩

/-- `NewStringUTF` undoes `GetStringUTFChars`. -/
def UndoneBy (newStringUTF : CString → Option JString) : Prop :=
  ∀ s : JString, newStringUTF s.text = some s

/-- `NewStringUTF` as the reader of modified UTF-8. -/
def newStringUTF (text : CString) : Option JString := modifiedUtf8.readAll text.bytes

theorem undoneBy_newStringUTF : UndoneBy newStringUTF := modifiedUtf8.readAll_encodeAll

end JString

/-- vrserver receives the bytes of the whole string. -/
theorem nativeText_eq (s : JString) : nativeText s = s.utfChars := by
  have hwhole := cstr_eq_self s.utfChars_noNul
  rw [nativeText, hwhole, hwhole]

end VRAdmin
