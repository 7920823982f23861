import VRAdmin.Foundation.LittleEndian
import VRAdmin.Foundation.Machine

/-! # Flash progress

`TalkToDfuUtil` reads the progress of one run of `dfu-util` from a local socket and
broadcasts percentages: the first word is the file size, each later one the number
of bytes written so far. `int` arithmetic wraps and its division truncates.
-/

namespace VRAdmin

open Foundation

/-- What one `is.read(buffer)` that returns a positive count puts into the four
zeroed bytes of `buffer`. -/
structure Piece where
  bytes : Bytes
  nonempty : bytes ≠ []
  fits : bytes.length ≤ 4
deriving DecidableEq

/-- How the reading ends: a negative count, a zero count, or an `IOException`. -/
inductive Ending
  | endOfStream
  | clientExit
  | ioException
deriving DecidableEq

/-- What the socket does in one session: it cannot be made or accept fails, accept
gives no client, or a client is read to an end. -/
inductive Session
  | refused
  | noClient
  | connected (pieces : List Piece) (ending : Ending)

namespace TalkToDfuUtil

/-- The local variables of `talkWithSocket`. -/
structure Locals where
  fileSize : Int32
  writeSize : Int32
  /-- A division by zero has ended the loop. -/
  arithmeticException : Bool
deriving DecidableEq

def start : Locals := ⟨-1, 0, false⟩

/-- The `int` made of the four bytes of `buffer`. -/
def valueOf (piece : Piece) : Int32 := (wordLE piece.bytes).toInt32

/-- The body of the loop behind a successful read; `mService` is never null. -/
def onValue (s : Locals) (value : Int32) : Locals × List Int32 :=
  let s' := if s.fileSize = -1 then { s with fileSize := value } else { s with writeSize := value }
  if s'.fileSize = 0 then ({ s' with arithmeticException := true }, [])
  else (s', [s'.writeSize * 100 / s'.fileSize])

def receive (s : Locals) (piece : Piece) : Locals × List Int32 :=
  if s.arithmeticException then (s, []) else onValue s (valueOf piece)

/-- The loop, as the values it gives to `broadcastFlashProgress`. -/
def readLoop : Machine Locals Piece Int32 := ⟨receive⟩

/-- The broadcast of the `finally` block. -/
def onFinally (s : Locals) : List Int32 := if s.fileSize ≠ s.writeSize then [-1] else []

/-- The values broadcast in a session. Each ending of the loop and each exception
reaches the `finally` block. -/
def talkWithSocket : Session → List Int32
  | .refused => onFinally start
  | .noClient => onFinally start
  | .connected pieces _ =>
      let r := readLoop.run start pieces
      r.2 ++ onFinally r.1

end TalkToDfuUtil

open TalkToDfuUtil

/-! ## Whole frames -/

/-- A whole frame. -/
def frame (n : Nat) : Piece := ⟨bytesLE n, by simp [bytesLE], by simp [bytesLE]⟩

theorem valueOf_frame {n : Nat} (h : n < 2 ^ 31) : valueOf (frame n) = Int32.ofNat n := by
  unfold valueOf
  rw [frame, wordLE_bytesLE (by omega)]
  rfl

theorem progress_eq {f w : Nat} (hf : f < 2 ^ 31) (hw : w ≤ 21474836) :
    Int32.ofNat w * 100 / Int32.ofNat f = Int32.ofNat (100 * w / f) := by
  rw [Int32.ofNat_div (by omega) (by omega), Int32.ofNat_mul, Int32.mul_comm]
  rfl

theorem ofNat_ne_neg_one {n : Nat} (h : n < 2 ^ 31) : Int32.ofNat n ≠ -1 := by
  intro heq
  have hint := congrArg Int32.toInt heq
  rw [Int32.toInt_ofNat_of_lt h] at hint
  have hneg : (-1 : Int32).toInt = -1 := by decide
  omega

theorem ofNat_inj {m n : Nat} (hm : m < 2 ^ 31) (hn : n < 2 ^ 31) :
    Int32.ofNat m = Int32.ofNat n ↔ m = n := by
  constructor
  · intro h
    have hint := congrArg Int32.toInt h
    rw [Int32.toInt_ofNat_of_lt hm, Int32.toInt_ofNat_of_lt hn] at hint
    omega
  · intro h
    rw [h]

theorem ofNat_ne_zero {f : Nat} (hpos : 1 ≤ f) (hf : f < 2 ^ 31) : Int32.ofNat f ≠ 0 := by
  intro h
  have hzero := (ofNat_inj hf (show 0 < 2 ^ 31 by omega)).mp h
  omega

/-- What a session that reported the size `f` knows after a written size. -/
def reported (f w : Nat) : Locals := ⟨Int32.ofNat f, Int32.ofNat w, false⟩

theorem receive_size {f : Nat} (hpos : 1 ≤ f) (hf : f ≤ 21474836) :
    receive start (frame f) = (reported f 0, [0]) := by
  have hne := ofNat_ne_zero hpos (show f < 2 ^ 31 by omega)
  have hprogress := progress_eq (show f < 2 ^ 31 by omega) (Nat.zero_le 21474836)
  rw [Nat.mul_zero, Nat.zero_div] at hprogress
  simp only [receive, start, Bool.false_eq_true, if_false, onValue, if_true,
    valueOf_frame (show f < 2 ^ 31 by omega), hne]
  exact congrArg (fun p => (reported f 0, [p])) hprogress

theorem receive_written {f w w' : Nat} (hpos : 1 ≤ f) (hf : f ≤ 21474836) (hw : w' ≤ f) :
    receive (reported f w) (frame w') = (reported f w', [Int32.ofNat (100 * w' / f)]) := by
  have hne := ofNat_ne_zero hpos (show f < 2 ^ 31 by omega)
  have hsize : Int32.ofNat f ≠ -1 := ofNat_ne_neg_one (by omega)
  simp only [receive, reported, Bool.false_eq_true, if_false, onValue, hsize, hne,
    valueOf_frame (show w' < 2 ^ 31 by omega),
    progress_eq (show f < 2 ^ 31 by omega) (show w' ≤ 21474836 by omega)]

/-- The written sizes of a session, one broadcast each. -/
theorem run_written {f w : Nat} (hpos : 1 ≤ f) (hf : f ≤ 21474836) {ws : List Nat}
    (hws : ∀ w ∈ ws, w ≤ f) :
    readLoop.run (reported f w) (ws.map frame) =
      (reported f (ws.getLastD w), ws.map fun w => Int32.ofNat (100 * w / f)) := by
  induction ws generalizing w with
  | nil => rfl
  | cons w' ws ih =>
      have hstep := receive_written (w := w) hpos hf (hws w' List.mem_cons_self)
      have hrest := ih (w := w') fun v hv => hws v (List.mem_cons_of_mem w' hv)
      rw [List.map_cons, Machine.run_cons]
      simp only [readLoop] at hrest ⊢
      rw [hstep, hrest, List.getLastD_cons]
      rfl

/-! ## The outcome of a session -/

theorem talk_frames {f : Nat} (hpos : 1 ≤ f) (hf : f ≤ 21474836) {ws : List Nat}
    (hws : ∀ w ∈ ws, w ≤ f) (ending : Ending) :
    talkWithSocket (.connected ((f :: ws).map frame) ending) =
      0 :: ws.map (fun w => Int32.ofNat (100 * w / f)) ++
        if ws.getLastD 0 ≠ f then [-1] else [] := by
  have hlast : ws.getLastD 0 ≤ f := by
    rcases List.mem_cons.mp (List.getLastD_mem_cons (l := ws) (a := 0)) with h | h
    · omega
    · exact hws _ h
  have hfinally : onFinally (reported f (ws.getLastD 0)) =
      if ws.getLastD 0 ≠ f then [-1] else [] := by
    have hsame := ofNat_inj (show f < 2 ^ 31 by omega) (show ws.getLastD 0 < 2 ^ 31 by omega)
    simp only [onFinally, reported, ne_eq, hsame, eq_comm]
  have hrun : readLoop.run start ((f :: ws).map frame) =
      (reported f (ws.getLastD 0), 0 :: ws.map fun w => Int32.ofNat (100 * w / f)) := by
    have hrest := run_written (w := 0) hpos hf hws
    rw [List.map_cons, Machine.run_cons]
    simp only [readLoop] at hrest ⊢
    rw [receive_size hpos hf, hrest]
    rfl
  rw [talkWithSocket, hrun, hfinally]

theorem percent_le {f w : Nat} (hw : w ≤ f) : 100 * w / f ≤ 100 :=
  Nat.div_le_of_le_mul (by rw [Nat.mul_comm f 100]; exact Nat.mul_le_mul_left 100 hw)

theorem percent_lt {f w : Nat} (hw : w < f) : 100 * w / f < 100 :=
  Nat.div_lt_of_lt_mul (by rw [Nat.mul_comm f 100]; omega)

theorem percent_toInt {f w : Nat} (hw : w ≤ f) :
    (Int32.ofNat (100 * w / f)).toInt = ((100 * w / f : Nat) : Int) := by
  have hle := percent_le hw
  exact Int32.toInt_ofNat_of_lt (by omega)

theorem getLast_percents {f : Nat} (hpos : 1 ≤ f) {ws : List Nat} (h : ws.getLastD 0 = f) :
    (0 :: ws.map fun w => Int32.ofNat (100 * w / f)).getLast? = some 100 := by
  have hzero : Int32.ofNat (100 * 0 / f) = 0 := by rw [Nat.mul_zero, Nat.zero_div]; rfl
  have hmap := List.getLastD_map (f := fun w => Int32.ofNat (100 * w / f)) (l := ws) (a := 0)
  rw [hzero, h, Nat.mul_div_cancel 100 hpos, List.getLastD_eq_getLast?] at hmap
  rw [List.getLast?_cons, hmap]
  rfl

/-- A session of whole frames broadcasts zero, the percentage of each written size,
and a final -1 exactly when the last written size is not the file size; a session
without a frame broadcasts -1. -/
theorem flash_outcome :
    (∀ (f : Nat) (ws : List Nat) (ending : Ending), 1 ≤ f → f ≤ 21474836 → (∀ w ∈ ws, w ≤ f) →
      let values := talkWithSocket (.connected ((f :: ws).map frame) ending)
      values.map Int32.toInt =
          0 :: ws.map (fun w => ((100 * w / f : Nat) : Int)) ++
            (if ws.getLastD 0 ≠ f then [-1] else []) ∧
        (∀ w ∈ ws, 100 * w / f ≤ 100 ∧ (w < f → 100 * w / f ≠ 100)) ∧
        values.getLast? = some (if ws.getLastD 0 = f then 100 else -1) ∧
        (ws.Pairwise (· ≤ ·) → (0 :: ws.map fun w => 100 * w / f).Pairwise (· ≤ ·))) ∧
    ∀ session : Session, session = .refused ∨ session = .noClient ∨
        (∃ ending, session = .connected [] ending) →
      talkWithSocket session = [-1] := by
  refine ⟨?_, ?_⟩
  · intro f ws ending hpos hf hws values
    have hvalues : values = _ := talk_frames hpos hf hws ending
    rw [hvalues]
    refine ⟨?_, ?_, ?_, ?_⟩
    · have hpercents : (ws.map fun w => Int32.ofNat (100 * w / f)).map Int32.toInt =
          ws.map fun w => ((100 * w / f : Nat) : Int) := by
        rw [List.map_map]
        exact List.map_congr_left fun w hw => percent_toInt (hws w hw)
      rw [List.map_append, List.map_cons, hpercents]
      split
      · rfl
      · rfl
    · intro w hw
      exact ⟨percent_le (hws w hw), fun hlt => Nat.ne_of_lt (percent_lt hlt)⟩
    · by_cases hlast : ws.getLastD 0 = f
      · simp only [ne_eq, hlast, not_true, if_false, if_true, List.append_nil]
        exact getLast_percents hpos hlast
      · simp only [ne_eq, hlast, not_false_eq_true, if_true, if_false]
        exact List.getLast?_concat
    · intro hsorted
      refine List.pairwise_cons.mpr ⟨fun _ _ => Nat.zero_le _, ?_⟩
      exact List.pairwise_map.mpr (hsorted.imp fun hle =>
        Nat.div_le_div_right (Nat.mul_le_mul_left 100 hle))
  · intro session hsession
    rcases hsession with rfl | rfl | ⟨ending, rfl⟩
    · decide
    · decide
    · cases ending <;> decide

/-- A file of 200 bytes that is written in two parts, then one of which only the first
part is written, and a session that the socket refuses. -/
theorem flash_outcome_parts :
    let whole := talkWithSocket (.connected ([200, 50, 200].map frame) .endOfStream)
    let cut := talkWithSocket (.connected ([200, 50, 150].map frame) .ioException)
    whole.map Int32.toInt = [0, 25, 100] ∧ whole.getLast? = some 100 ∧
      cut.map Int32.toInt = [0, 25, 75, -1] ∧ cut.getLast? = some (-1) ∧
      talkWithSocket .refused = [-1] := by
  intro whole cut
  obtain ⟨hframes, hnone⟩ := flash_outcome
  obtain ⟨hwhole, -, hwholeLast, -⟩ :=
    hframes 200 [50, 200] .endOfStream (by decide) (by decide) (by decide)
  obtain ⟨hcut, -, hcutLast, -⟩ :=
    hframes 200 [50, 150] .ioException (by decide) (by decide) (by decide)
  exact ⟨hwhole, hwholeLast, hcut, hcutLast, hnone .refused (Or.inl rfl)⟩

end VRAdmin
