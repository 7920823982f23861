import Mathlib.Algebra.Order.Ring.Int
import Mathlib.Data.List.Basic
import Mathlib.Data.List.TakeWhile

/-! # NUL-terminated strings in a byte memory

A `const char*` is modelled by the bytes that follow it in memory. The scanning
functions of the C library are translated to recursions over that memory and
then characterized by the string which the memory denotes, the bytes before its
first NUL. Bytes past the end of the given memory read as NUL.
-/

namespace Foundation

abbrev Bytes := List UInt8

/-- The bytes of an ASCII literal. -/
def ascii (text : String) : Bytes := text.toList.map fun c => c.val.toUInt8

/-- The string a `const char*` denotes. -/
def cstr (mem : Bytes) : Bytes := mem.takeWhile (· ≠ 0)

@[simp] theorem cstr_nil : cstr [] = [] := rfl

theorem cstr_cons (b : UInt8) (mem : Bytes) :
    cstr (b :: mem) = if b = 0 then [] else b :: cstr mem := by
  by_cases hb : b = 0 <;> simp [cstr, hb]

theorem cstr_noNul (mem : Bytes) : (0 : UInt8) ∉ cstr mem := by
  intro hmem
  have hne := List.mem_takeWhile_imp hmem
  simp at hne

theorem cstr_eq_self {s : Bytes} (h : (0 : UInt8) ∉ s) : cstr s = s := by
  apply List.takeWhile_eq_self_iff.mpr
  intro b hb
  simpa using fun hz : b = 0 => h (hz ▸ hb)

theorem cstr_append {s : Bytes} (h : (0 : UInt8) ∉ s) (rest : Bytes) :
    cstr (s ++ rest) = s ++ cstr rest := by
  have hs : ∀ b ∈ s, decide (b ≠ 0) = true := fun b hb => decide_eq_true fun h0 => h (h0 ▸ hb)
  exact List.takeWhile_append_of_pos hs

/-- A terminator inside the first block hides whatever lies behind the block. -/
theorem cstr_append_nul {s : Bytes} (h : (0 : UInt8) ∉ s) (rest : Bytes) :
    cstr (s ++ 0 :: rest) = s := by
  rw [cstr_append h, cstr_cons, if_pos rfl, List.append_nil]

theorem cstr_append_of_nul {front : Bytes} (h : (0 : UInt8) ∈ front) (behind : Bytes) :
    cstr (front ++ behind) = cstr front := by
  induction front with
  | nil => simp at h
  | cons b front ih =>
      rw [List.cons_append, cstr_cons, cstr_cons]
      by_cases hb : b = 0
      · simp [hb]
      · have hf : (0 : UInt8) ∈ front := by
          rcases List.mem_cons.mp h with h0 | hf
          · exact (hb h0.symm).elim
          · exact hf
        simp [hb, ih hf]

theorem cstr_length_le (mem : Bytes) : (cstr mem).length ≤ mem.length :=
  (List.takeWhile_prefix _).length_le

theorem cstr_length_lt {mem : Bytes} (h : (0 : UInt8) ∈ mem) : (cstr mem).length < mem.length := by
  refine Nat.lt_of_le_of_ne (cstr_length_le mem) fun hlen => cstr_noNul mem ?_
  have hwhole : cstr mem = mem := (List.takeWhile_prefix _).eq_of_length hlen
  rwa [hwhole]

/-! ## Strings as values -/

/-- A string without a NUL byte: what a `const char*` argument can carry. -/
structure CString where
  bytes : Bytes
  noNul : (0 : UInt8) ∉ bytes
deriving DecidableEq

namespace CString

/-- `std::string str(p)` for a pointer `p` into `mem`. -/
def ofMem (mem : Bytes) : CString := ⟨cstr mem, cstr_noNul mem⟩

def lit (text : String) : CString := ofMem (ascii text)

instance : Inhabited CString := ⟨⟨[], by simp⟩⟩

theorem ext_bytes {s t : CString} (h : s.bytes = t.bytes) : s = t := by
  cases s
  cases t
  simp_all

@[simp] theorem cstr_bytes (s : CString) : cstr s.bytes = s.bytes := cstr_eq_self s.noNul

@[simp] theorem ofMem_bytes (s : CString) : ofMem s.bytes = s := ext_bytes s.cstr_bytes

/-- `str.substr(0, str.find(c))`, the whole string when `c` does not occur. -/
def upTo (c : UInt8) (s : CString) : CString :=
  ⟨s.bytes.takeWhile (· ≠ c), fun h => s.noNul ((List.takeWhile_prefix _).subset h)⟩

end CString

/-! ## Comparisons -/

/-- `tolower` in the C locale. -/
def tolower (c : UInt8) : UInt8 := if 65 ≤ c ∧ c ≤ 90 then c + 32 else c

theorem tolower_eq_zero_iff (c : UInt8) : tolower c = 0 ↔ c = 0 := by
  unfold tolower
  split
  · next h =>
      have h1 := UInt8.le_iff_toNat_le.mp h.1
      have h2 := UInt8.le_iff_toNat_le.mp h.2
      simp only [← UInt8.toNat_inj, UInt8.toNat_add, UInt8.toNat_ofNat, Nat.reducePow,
        Nat.reduceMod] at h1 h2 ⊢
      omega
  · rfl

/-- The common loop of the `str*cmp` family: at most `n` bytes are compared,
up to the first difference of the folded bytes or the first NUL. -/
def compareBytes (fold : UInt8 → UInt8) : Nat → Bytes → Bytes → Int
  | 0, _, _ => 0
  | n + 1, a, b =>
      let x := a.headD 0
      let y := b.headD 0
      if fold x ≠ fold y then ((fold x).toNat : Int) - (fold y).toNat
      else if x = 0 then 0
      else compareBytes fold n a.tail b.tail

def strncmp (a b : Bytes) (n : Nat) : Int := compareBytes id n a b
def strncasecmp (a b : Bytes) (n : Nat) : Int := compareBytes tolower n a b

/-- The first string ends within its own bytes, so this bound is never the
reason to stop. -/
def strcmp (a b : Bytes) : Int := compareBytes id (a.length + 1) a b
def strcasecmp (a b : Bytes) : Int := compareBytes tolower (a.length + 1) a b

theorem cstr_take_succ (mem : Bytes) (n : Nat) :
    (cstr mem).take (n + 1) =
      if mem.headD 0 = 0 then [] else mem.headD 0 :: (cstr mem.tail).take n := by
  cases mem with
  | nil => simp
  | cons b mem =>
      rw [cstr_cons]
      by_cases hb : b = 0 <;> simp [hb]

/-- The comparison answers zero exactly on strings that agree up to folding in
their first `n` bytes. -/
theorem compareBytes_eq_zero_iff {fold : UInt8 → UInt8} (hfold : ∀ c, fold c = 0 ↔ c = 0)
    (n : Nat) (a b : Bytes) :
    compareBytes fold n a b = 0 ↔
      ((cstr a).take n).map fold = ((cstr b).take n).map fold := by
  induction n generalizing a b with
  | zero => simp [compareBytes]
  | succ n ih =>
      rw [compareBytes, cstr_take_succ, cstr_take_succ]
      by_cases hxy : fold (a.headD 0) = fold (b.headD 0)
      · have hzero : a.headD 0 = 0 ↔ b.headD 0 = 0 := by
          rw [← hfold, hxy, hfold]
        by_cases hx : a.headD 0 = 0
        · simp only [ne_eq, not_true, if_false, hx, if_true, hzero.mp hx]
        · have hy : b.headD 0 ≠ 0 := fun h => hx (hzero.mpr h)
          simp only [hxy, ne_eq, not_true, if_false, hx, hy, ih, List.map_cons, List.cons.injEq,
            true_and]
      · have hne : ((fold (a.headD 0)).toNat : Int) - (fold (b.headD 0)).toNat ≠ 0 := by
          intro h
          apply hxy
          apply UInt8.toNat_inj.mp
          omega
        simp only [ne_eq, hxy, not_false_eq_true, if_true, hne, false_iff]
        by_cases hx : a.headD 0 = 0
        · have hy : b.headD 0 ≠ 0 := fun h => hxy (by rw [hx, h])
          rw [if_pos hx, if_neg hy]
          simp
        · by_cases hy : b.headD 0 = 0
          · rw [if_neg hx, if_pos hy]
            simp
          · rw [if_neg hx, if_neg hy, List.map_cons, List.map_cons, List.cons.injEq]
            exact fun h => hxy h.1

theorem strncmp_eq_zero_iff (a b : Bytes) (n : Nat) :
    strncmp a b n = 0 ↔ (cstr a).take n = (cstr b).take n := by
  simpa [strncmp] using @compareBytes_eq_zero_iff id (fun c => Iff.rfl) n a b

theorem strncasecmp_eq_zero_iff (a b : Bytes) (n : Nat) :
    strncasecmp a b n = 0 ↔
      ((cstr a).take n).map tolower = ((cstr b).take n).map tolower :=
  compareBytes_eq_zero_iff tolower_eq_zero_iff n a b

/-- Equality up to ASCII case. -/
def CString.EqIgnoreCase (s t : CString) : Prop := s.bytes.map tolower = t.bytes.map tolower

instance (s t : CString) : Decidable (s.EqIgnoreCase t) :=
  inferInstanceAs (Decidable (s.bytes.map tolower = t.bytes.map tolower))

/-- One byte more than the shorter string decides equality of the strings. -/
private theorem take_succ_length_eq_iff {fold : UInt8 → UInt8} {s t : Bytes} {n : Nat}
    (hs : s.length ≤ n) :
    (s.take (n + 1)).map fold = (t.take (n + 1)).map fold ↔ s.map fold = t.map fold := by
  rw [List.take_of_length_le (by omega)]
  constructor
  · intro h
    have hlen := congrArg List.length h
    simp only [List.length_map, List.length_take] at hlen
    rw [h, List.take_of_length_le (by omega)]
  · intro h
    have hlen := congrArg List.length h
    simp only [List.length_map] at hlen
    rw [h, List.take_of_length_le (by omega)]

theorem strcmp_eq_zero_iff (a b : Bytes) : strcmp a b = 0 ↔ cstr a = cstr b := by
  rw [strcmp, @compareBytes_eq_zero_iff id (fun c => Iff.rfl),
    take_succ_length_eq_iff (cstr_length_le a)]
  simp

theorem strcasecmp_eq_zero_iff (a b : Bytes) :
    strcasecmp a b = 0 ↔ (cstr a).map tolower = (cstr b).map tolower := by
  rw [strcasecmp, compareBytes_eq_zero_iff tolower_eq_zero_iff,
    take_succ_length_eq_iff (cstr_length_le a)]

theorem strcmp_bytes_eq_zero_iff (s t : CString) : strcmp s.bytes t.bytes = 0 ↔ s = t := by
  rw [strcmp_eq_zero_iff, CString.cstr_bytes, CString.cstr_bytes]
  exact ⟨CString.ext_bytes, congrArg _⟩

theorem strcasecmp_bytes_eq_zero_iff (s t : CString) :
    strcasecmp s.bytes t.bytes = 0 ↔ s.EqIgnoreCase t := by
  rw [strcasecmp_eq_zero_iff, CString.cstr_bytes, CString.cstr_bytes]
  rfl

/-- `strncmp(text, s, strlen(text))` is a prefix test. -/
theorem strncmp_length_eq_zero_iff {text : Bytes} (htext : (0 : UInt8) ∉ text) (s : Bytes) :
    strncmp text s text.length = 0 ↔ text <+: cstr s := by
  rw [strncmp_eq_zero_iff, cstr_eq_self htext, List.take_length, List.prefix_iff_eq_take]

/-- `strncasecmp(s, text, n)` tests for the first `n` bytes of `text` up to case. -/
theorem strncasecmp_take_eq_zero_iff {text : Bytes} (htext : (0 : UInt8) ∉ text) {n : Nat}
    (hn : n ≤ text.length) (s : Bytes) :
    strncasecmp s text n = 0 ↔ (text.take n).map tolower <+: (cstr s).map tolower := by
  have hlen : ((text.take n).map tolower).length = n := by simpa using hn
  rw [strncasecmp_eq_zero_iff, cstr_eq_self htext, List.prefix_iff_eq_take, hlen, List.map_take,
    List.map_take]
  exact eq_comm

/-! ## Copies and numbers -/

/-- `strncpy(dst, src, n)`: short sources are padded with NUL up to `n`. -/
def strncpy (dst src : Bytes) (n : Nat) : Bytes :=
  let text := (cstr src).take n
  text ++ List.replicate (n - text.length) 0 ++ dst.drop n

/-- `sprintf(dst, ..)` of an already formatted text. -/
def sprintf (dst text : Bytes) : Bytes := text ++ 0 :: dst.drop (text.length + 1)

/-- What `snprintf(_, size, ..)` leaves of an already formatted text. -/
def snprintf (size : Nat) (text : Bytes) : Bytes := text.take (size - 1)

/-- `%lu`. -/
def decimal (n : Nat) : Bytes := (Nat.toDigits 10 n).map fun c => c.val.toUInt8

/-- `%d`. -/
def decimalInt : Int → Bytes
  | .ofNat n => decimal n
  | .negSucc n => 45 :: decimal (n + 1)

def isDigit (c : UInt8) : Bool := 48 ≤ c && c ≤ 57

/-- The white space of `isspace` in the C locale. -/
def isSpace (c : UInt8) : Bool := c == 32 || (9 ≤ c && c ≤ 13)

def digitsValue (digits : Bytes) : Nat :=
  digits.foldl (fun acc c => 10 * acc + (c.toNat - 48)) 0

/-- `atoll`: white space, an optional sign, digits; out of range saturates. -/
def atoll (s : CString) : Int :=
  let value (text : Bytes) : Int := digitsValue (text.takeWhile isDigit)
  let n := match s.bytes.dropWhile isSpace with
    | 45 :: text => -value text
    | 43 :: text => value text
    | text => value text
  max (-2 ^ 63) (min n (2 ^ 63 - 1))

end Foundation
