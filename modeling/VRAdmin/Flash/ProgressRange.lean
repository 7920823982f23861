import VRAdmin.Flash.ReadBoundaries

/-! # Range of the progress arithmetic

`talkWithSocket` multiplies the written size by 100 in `int` before it divides by the
file size. From 21474837 written bytes on the product wraps, and no wrapped product
divides to the percentage: the quotient is negative, zero or another percentage. A
file size of zero reaches the division with the first frame.
-/

namespace VRAdmin

open Foundation TalkToDfuUtil

/-! ## A wrapped product -/

theorem tdiv_ne_of_wrapped {p x f : Int} (hf : 0 < f) (hsmall : f < 2 ^ 31) (hx : 2 ^ 31 ≤ x)
    (hturn : p + 2 ^ 32 ≤ x) : p.tdiv f ≠ x / f := by
  intro heq
  rcases Int.le_total 0 p with hp | hp
  · rw [Int.tdiv_eq_ediv_of_nonneg hp] at heq
    have hlow := Int.mul_ediv_self_le (x := p) (Int.ne_of_gt hf)
    have hhigh := Int.lt_mul_ediv_self_add (x := x) hf
    rw [heq] at hlow
    omega
  · have hnonpos : p.tdiv f ≤ 0 := by
      have hneg := Int.tdiv_nonneg (a := -p) (b := f) (by omega) (by omega)
      rw [Int.neg_tdiv] at hneg
      omega
    have hone : 1 ≤ x / f := Int.le_ediv_of_mul_le hf (by omega)
    omega

/-- An `int` product beyond the sign bit is at least one turn too small. -/
theorem bmod_turn {x : Int} (hx : 2 ^ 31 ≤ x) : x.bmod (2 ^ 32) + 2 ^ 32 ≤ x := by
  have hlt := Int.bmod_lt (x := x) (m := 2 ^ 32) (by omega)
  have hsplit := Int.bmod_add_bdiv x (2 ^ 32)
  omega

theorem toInt_product {w : Nat} (hw : w < 2 ^ 31) :
    (Int32.ofNat w * 100).toInt = (100 * w : Int).bmod (2 ^ 32) := by
  rw [Int32.toInt_mul, Int32.toInt_ofNat_of_lt hw, Int.mul_comm]
  rfl

theorem progress_wrapped {f w : Nat} (hf : f < 2 ^ 31) (hle : w ≤ f) (hw : 21474836 < w) :
    (Int32.ofNat w * 100 / Int32.ofNat f).toInt ≠ ((100 * w / f : Nat) : Int) := by
  have hquot := Int32.toInt_div_of_ne_right (Int32.ofNat w * 100) (Int32.ofNat f)
    (ofNat_ne_neg_one hf)
  rw [hquot, toInt_product (by omega), Int32.toInt_ofNat_of_lt hf, Int.natCast_ediv,
    Int.natCast_mul]
  exact tdiv_ne_of_wrapped (by omega) (by omega) (by omega) (bmod_turn (by omega))

/-! ## A whole session -/

/-- In a session of the file size `f` and the written sizes `ws` no division fails, each
broadcast of the loop is the percentage written, and so none is the -1 of a failure. -/
def ProgressExact (f : Nat) (ws : List Nat) : Prop :=
  let r := readLoop.run start ((f :: ws).map frame)
  r.1.arithmeticException = false ∧
    (0 < f → r.2.map Int32.toInt = 0 :: ws.map fun w => ((100 * w / f : Nat) : Int)) ∧
    ∀ percent ∈ r.2, 0 ≤ percent.toInt ∧ percent.toInt ≤ 100

theorem run_frames {f : Nat} (hpos : 0 < f) (hf : f < 2 ^ 31) {ws : List Nat}
    (hws : ∀ w ∈ ws, w ≤ f) :
    (readLoop.run start ((f :: ws).map frame)).1.arithmeticException = false ∧
      (readLoop.run start ((f :: ws).map frame)).2 =
        0 :: ws.map fun w => Int32.ofNat w * 100 / Int32.ofNat f := by
  have hvalue := valueOf_frame hf
  have hrun := run_announced (p := frame f) (by rw [hvalue]; exact ofNat_ne_neg_one hf)
    (by rw [hvalue]; exact ofNat_ne_zero hpos hf) (ws.map frame)
  have hwords : ((ws.map frame).map fun p => valueOf p * 100 / Int32.ofNat f) =
      ws.map fun w => Int32.ofNat w * 100 / Int32.ofNat f := by
    rw [List.map_map]
    refine List.map_congr_left fun w hw => ?_
    rw [Function.comp_apply, valueOf_frame (Nat.lt_of_le_of_lt (hws w hw) hf)]
  rw [List.map_cons, hrun, hvalue, hwords]
  exact ⟨rfl, rfl⟩

theorem run_frames_zero (ws : List Nat) :
    (readLoop.run start ((0 :: ws).map frame)).1.arithmeticException = true := by
  rw [List.map_cons, run_zero_size (by decide)]

theorem progress_small {f w : Nat} (hf : f < 2 ^ 31) (hle : w ≤ f) (hw : w ≤ 21474836) :
    (Int32.ofNat w * 100 / Int32.ofNat f).toInt = ((100 * w / f : Nat) : Int) := by
  rw [progress_eq hf hw, percent_toInt hle]

/-- The loop is exact in the sessions that announce a positive size and write at most
21474836 bytes, and in no others. -/
theorem progress_range {f : Nat} (hf : f < 2 ^ 31) {ws : List Nat} (hws : ∀ w ∈ ws, w ≤ f) :
    ProgressExact f ws ↔ 0 < f ∧ ∀ w ∈ ws, w ≤ 21474836 := by
  rcases Nat.eq_zero_or_pos f with rfl | hpos
  · refine ⟨fun h => ?_, fun h => absurd h.1 (Nat.lt_irrefl 0)⟩
    exact absurd (h.1.symm.trans (run_frames_zero ws)) Bool.false_ne_true
  obtain ⟨hquiet, hvalues⟩ := run_frames hpos hf hws
  constructor
  · rintro ⟨-, hexact, -⟩
    refine ⟨hpos, fun w hw => Nat.le_of_not_lt fun hbig => ?_⟩
    have hmaps := hexact hpos
    rw [hvalues, List.map_cons, List.map_map] at hmaps
    exact progress_wrapped hf (hws w hw) hbig
      (List.map_inj_left.mp (List.cons_inj_right _ |>.mp hmaps) w hw)
  · rintro ⟨-, hsmall⟩
    refine ⟨hquiet, fun _ => ?_, fun percent hpercent => ?_⟩
    · rw [hvalues, List.map_cons, List.map_map]
      exact congrArg (List.cons 0) (List.map_congr_left fun w hw =>
        progress_small hf (hws w hw) (hsmall w hw))
    · rw [hvalues] at hpercent
      rcases List.mem_cons.mp hpercent with rfl | hpercent
      · decide
      · obtain ⟨w, hw, rfl⟩ := List.mem_map.mp hpercent
        have hle := percent_le (hws w hw)
        rw [progress_small hf (hws w hw) (hsmall w hw)]
        exact ⟨Int.natCast_nonneg _, by exact_mod_cast hle⟩

theorem progress_range_largest : ProgressExact 2147483647 [1, 21474836] :=
  (progress_range (by decide) (by decide)).mpr (by decide)

/-- A file one byte longer than that, whose last broadcast is -99. -/
theorem progress_range_fails :
    ¬ ∀ (f : Nat) (ws : List Nat), f < 2 ^ 31 → (∀ w ∈ ws, w ≤ f) → ProgressExact f ws := by
  intro hall
  have hexact := hall 21474837 [21474837] (by decide) (by decide)
  exact absurd (hexact.2.1 (by decide)) (by decide)

example : (readLoop.run start ([21474837, 21474837].map frame)).2 = [0, -99] := by decide

example : (readLoop.run start ([0].map frame)).1.arithmeticException = true := by decide

end VRAdmin
