import VRAdmin.Flash.TalkToDfuUtil

/-! # Read boundaries

The loop of `talkWithSocket` takes whatever one `read` returned for one word and
starts the next word in a fresh buffer. How a stream of frames is cut into reads
therefore shows in the broadcasts, and only the cut into whole frames gives those
of the frames: another cut makes more broadcasts, or stops at a division by zero.
-/

namespace VRAdmin

open Foundation TalkToDfuUtil

/-- The bytes that the reads take off the stream. -/
def streamOf (pieces : List Piece) : Bytes := pieces.flatMap Piece.bytes

/-! ## Counting the reads -/

@[simp] theorem streamOf_cons (p : Piece) (pieces : List Piece) :
    streamOf (p :: pieces) = p.bytes ++ streamOf pieces := rfl

theorem streamOf_append (first second : List Piece) :
    streamOf (first ++ second) = streamOf first ++ streamOf second :=
  List.flatMap_append

theorem Piece.ext_bytes {p q : Piece} (h : p.bytes = q.bytes) : p = q := by
  cases p
  cases q
  cases h
  rfl

theorem frame_bytes_length (n : Nat) : (frame n).bytes.length = 4 := rfl

theorem streamOf_frames_length (ns : List Nat) :
    (streamOf (ns.map frame)).length = 4 * ns.length := by
  induction ns with
  | nil => rfl
  | cons n ns ih =>
      rw [List.map_cons, streamOf_cons, List.length_append, ih, frame_bytes_length,
        List.length_cons]
      omega

theorem streamOf_length_le (pieces : List Piece) :
    (streamOf pieces).length ≤ 4 * pieces.length := by
  induction pieces with
  | nil => exact Nat.le_refl 0
  | cons p pieces ih =>
      have hfits := p.fits
      rw [streamOf_cons, List.length_append, List.length_cons]
      omega

theorem full_of_count {pieces : List Piece} (h : 4 * pieces.length ≤ (streamOf pieces).length) :
    ∀ p ∈ pieces, p.bytes.length = 4 := by
  induction pieces with
  | nil => simp
  | cons p pieces ih =>
      have hfits := p.fits
      have hrest := streamOf_length_le pieces
      rw [streamOf_cons, List.length_append, List.length_cons] at h
      intro q hq
      rcases List.mem_cons.mp hq with rfl | hq
      · omega
      · exact ih (by omega) q hq

theorem eq_frames_of_full {pieces : List Piece} {ns : List Nat}
    (hfull : ∀ p ∈ pieces, p.bytes.length = 4)
    (hstream : streamOf pieces = streamOf (ns.map frame)) : pieces = ns.map frame := by
  induction pieces generalizing ns with
  | nil =>
      have hlen := congrArg List.length hstream
      rw [streamOf_frames_length] at hlen
      have hns : ns = [] := List.length_eq_zero_iff.mp (by simpa [streamOf] using hlen.symm)
      rw [hns]
      rfl
  | cons p pieces ih =>
      have hp := hfull p List.mem_cons_self
      cases ns with
      | nil =>
          have hlen := congrArg List.length hstream
          rw [streamOf_cons, List.length_append, hp, streamOf_frames_length] at hlen
          simp at hlen
      | cons n ns =>
          rw [List.map_cons, streamOf_cons, streamOf_cons] at hstream
          obtain ⟨hhead, htail⟩ := List.append_inj hstream hp
          rw [List.map_cons, Piece.ext_bytes hhead,
            ih (fun q hq => hfull q (List.mem_cons_of_mem p hq)) htail]

/-! ## The broadcasts of arbitrary reads -/

theorem run_pieces {size : Int32} (hne : size ≠ -1) (hzero : size ≠ 0) (written : Int32)
    (pieces : List Piece) :
    readLoop.run ⟨size, written, false⟩ pieces =
      (⟨size, (pieces.map valueOf).getLastD written, false⟩,
        pieces.map fun p => valueOf p * 100 / size) := by
  induction pieces generalizing written with
  | nil => rfl
  | cons p pieces ih =>
      have hstep : receive ⟨size, written, false⟩ p =
          (⟨size, valueOf p, false⟩, [valueOf p * 100 / size]) := by
        simp only [receive, Bool.false_eq_true, if_false, onValue, hne, hzero]
      have hrest := ih (valueOf p)
      rw [Machine.run_cons]
      simp only [readLoop] at hrest ⊢
      rw [hstep, hrest, List.map_cons, List.map_cons, List.getLastD_cons]
      rfl

/-- The `ArithmeticException` leaves nothing to broadcast. -/
theorem run_stopped (s : Locals) (h : s.arithmeticException = true) (pieces : List Piece) :
    readLoop.run s pieces = (s, []) := by
  have hstep (p : Piece) : receive s p = (s, []) := if_pos h
  induction pieces with
  | nil => rfl
  | cons p pieces ih =>
      rw [Machine.run_cons]
      simp only [readLoop] at ih ⊢
      rw [hstep, ih]
      rfl

theorem run_announced {p : Piece} (hne : valueOf p ≠ -1) (hzero : valueOf p ≠ 0)
    (pieces : List Piece) :
    readLoop.run start (p :: pieces) =
      (⟨valueOf p, (pieces.map valueOf).getLastD 0, false⟩,
        0 :: pieces.map fun q => valueOf q * 100 / valueOf p) := by
  have hstep : receive start p = (⟨valueOf p, 0, false⟩, [0]) := by
    have hprogress : (0 : Int32) * 100 / valueOf p = 0 := by
      rw [Int32.zero_mul, Int32.zero_div]
    simp only [receive, start, Bool.false_eq_true, if_false, onValue, if_true, hzero, hprogress]
  have hrest := run_pieces hne hzero 0 pieces
  rw [Machine.run_cons]
  simp only [readLoop] at hrest ⊢
  rw [hstep, hrest]
  rfl

theorem run_zero_size {p : Piece} (hzero : valueOf p = 0) (pieces : List Piece) :
    readLoop.run start (p :: pieces) = (⟨0, 0, true⟩, []) := by
  have hstep : receive start p = (⟨0, 0, true⟩, []) := by
    simp only [receive, start, Bool.false_eq_true, if_false, onValue, if_true, hzero]
  have hrest := run_stopped ⟨0, 0, true⟩ rfl pieces
  rw [Machine.run_cons]
  simp only [readLoop] at hrest ⊢
  rw [hstep, hrest]
  rfl

/-- The final -1 of a session that announced `size`. -/
def failure (size written : Int32) : List Int32 := if size ≠ written then [-1] else []

theorem talk_pieces {p : Piece} (hne : valueOf p ≠ -1) (hzero : valueOf p ≠ 0)
    (pieces : List Piece) (ending : Ending) :
    talkWithSocket (.connected (p :: pieces) ending) =
      0 :: (pieces.map fun q => valueOf q * 100 / valueOf p) ++
        failure (valueOf p) ((pieces.map valueOf).getLastD 0) := by
  rw [talkWithSocket, run_announced hne hzero]
  rfl

theorem talk_zero_size {p : Piece} (hzero : valueOf p = 0) (pieces : List Piece)
    (ending : Ending) : talkWithSocket (.connected (p :: pieces) ending) = [] := by
  rw [talkWithSocket, run_zero_size hzero]
  rfl

/-! ## Short reads -/

theorem valueOf_short {p : Piece} (h : p.bytes.length < 4) :
    ∃ n, n < 2 ^ 24 ∧ valueOf p = Int32.ofNat n := by
  have hword (b₀ b₁ b₂ : UInt8) : (wordLE [b₀, b₁, b₂, 0]).toNat < 2 ^ 24 := by
    have h0 := b₀.toNat_lt
    have h1 := b₁.toNat_lt
    have h2 := b₂.toNat_lt
    have hzero : (0 : UInt8).toNat = 0 := rfl
    rw [wordLE_toNat, hzero]
    omega
  refine ⟨(wordLE p.bytes).toNat, ?_, ?_⟩
  · match hp : p.bytes, p.nonempty, h with
    | [b₀], _, _ => exact hword b₀ 0 0
    | [b₀, b₁], _, _ => exact hword b₀ b₁ 0
    | [b₀, b₁, b₂], _, _ => exact hword b₀ b₁ b₂
  · rw [← UInt32.toInt32_ofNat', UInt32.ofNat_toNat]
    rfl

theorem valueOf_whole {p : Piece} {n : Nat} (h : p.bytes = (frame n).bytes) :
    valueOf p = valueOf (frame n) := by
  rw [Piece.ext_bytes h]

theorem announced_cases {f : Nat} (hf : f < 2 ^ 31) {p : Piece} {pieces : List Piece}
    {ws : List Nat} (hstream : streamOf (p :: pieces) = streamOf ((f :: ws).map frame)) :
    (valueOf p = Int32.ofNat f ∧ streamOf pieces = streamOf (ws.map frame)) ∨
      ∃ n, n < 2 ^ 24 ∧ valueOf p = Int32.ofNat n := by
  have hfits := p.fits
  by_cases hwhole : p.bytes.length = 4
  · rw [List.map_cons, streamOf_cons, streamOf_cons] at hstream
    obtain ⟨hhead, htail⟩ := List.append_inj hstream hwhole
    exact Or.inl ⟨by rw [valueOf_whole hhead, valueOf_frame hf], htail⟩
  · exact Or.inr (valueOf_short (by omega))

/-- The last read ends the last frame: it is that frame or it is short. -/
theorem last_cases {q : Piece} {pieces : List Piece} {w : Nat} {ws : List Nat}
    (hstream : streamOf (pieces ++ [q]) = streamOf ((ws ++ [w]).map frame)) :
    valueOf q = valueOf (frame w) ∨ ∃ n, n < 2 ^ 24 ∧ valueOf q = Int32.ofNat n := by
  have hfits := q.fits
  by_cases hwhole : q.bytes.length = 4
  · rw [List.map_append, streamOf_append, streamOf_append] at hstream
    have hlast : q.bytes ++ [] = (frame w).bytes ++ [] :=
      (List.append_inj' hstream (by
        show (q.bytes ++ []).length = 4
        rw [List.append_nil, hwhole])).2
    exact Or.inl (valueOf_whole (by simpa using hlast))
  · exact Or.inr (valueOf_short (by omega))

theorem small_progress {n : Nat} (hn : n < 2 ^ 24) (hzero : Int32.ofNat n ≠ 0) :
    Int32.ofNat n * 100 / Int32.ofNat n ≠ -1 := by
  have hpos : 0 < n := Nat.pos_of_ne_zero fun h => hzero (by rw [h]; rfl)
  rw [progress_eq (by omega) (by omega), Nat.mul_div_cancel 100 hpos]
  decide

theorem failure_cases (size written : Int32) :
    (failure size written = [] ∧ size = written) ∨
      (failure size written = [-1] ∧ size ≠ written) := by
  by_cases h : size = written
  · exact Or.inl ⟨if_neg (not_not.mpr h), h⟩
  · exact Or.inr ⟨if_pos h, h⟩

theorem failure_length_le (size written : Int32) : (failure size written).length ≤ 1 := by
  rcases failure_cases size written with ⟨h, -⟩ | ⟨h, -⟩
  · rw [h]
    exact Nat.zero_le 1
  · rw [h]
    exact Nat.le_refl 1

theorem talk_announced {f : Nat} (hpos : 1 ≤ f) (hf : f < 2 ^ 31) (ws : List Nat)
    (ending : Ending) :
    talkWithSocket (.connected ((f :: ws).map frame) ending) =
      0 :: (ws.map fun w => valueOf (frame w) * 100 / Int32.ofNat f) ++
        failure (Int32.ofNat f) (((ws.map frame).map valueOf).getLastD 0) := by
  have htalk := talk_pieces (p := frame f)
    (by rw [valueOf_frame hf]; exact ofNat_ne_neg_one hf)
    (by rw [valueOf_frame hf]; exact ofNat_ne_zero hpos hf) (ws.map frame) ending
  rw [List.map_cons, htalk, valueOf_frame hf, List.map_map]
  rfl

/-! ## Which cuts show -/

/-- If the last read repeats the announced size although the last frame does not,
one of the two was short and the percentage is 100. -/
theorem repeated_size {f : Nat} (hf : f < 2 ^ 31) {ws : List Nat} {p q : Piece}
    {pieces : List Piece}
    (hstream : streamOf (p :: (pieces ++ [q])) = streamOf ((f :: ws).map frame))
    (hzero : valueOf p ≠ 0) (hrepeat : valueOf q = valueOf p)
    (hshort : Int32.ofNat f ≠ ((ws.map frame).map valueOf).getLastD 0) :
    valueOf q * 100 / valueOf p ≠ -1 := by
  have hsmall (n : Nat) (hn : n < 2 ^ 24) (h : valueOf p = Int32.ofNat n) :
      valueOf q * 100 / valueOf p ≠ -1 := by
    rw [hrepeat, h]
    rw [h] at hzero
    exact small_progress hn hzero
  rcases announced_cases hf hstream with ⟨hsize, hrest⟩ | ⟨n, hn, h⟩
  · rcases List.eq_nil_or_concat' ws with rfl | ⟨ws, w, rfl⟩
    · have hempty := (List.append_eq_nil_iff.mp ((streamOf_append pieces [q]).symm.trans hrest)).2
      exact absurd (List.append_eq_nil_iff.mp hempty).1 q.nonempty
    · rcases last_cases hrest with hw | ⟨n, hn, h⟩
      · refine absurd ?_ hshort
        rw [← hsize, ← hrepeat, hw]
        simp
      · exact hsmall n hn (hrepeat.symm.trans h)
  · exact hsmall n hn h

/-- Reads that cut a frame are more than the frames, and one broadcast more is
never the final -1 of the frames. -/
theorem cut_shows {f : Nat} (hpos : 1 ≤ f) (hf : f < 2 ^ 31) {ws : List Nat}
    {pieces : List Piece} (hstream : streamOf pieces = streamOf ((f :: ws).map frame))
    (hmore : ws.length + 1 < pieces.length) (ending : Ending) :
    talkWithSocket (.connected pieces ending) ≠
      talkWithSocket (.connected ((f :: ws).map frame) ending) := by
  intro hsame
  rw [talk_announced hpos hf] at hsame
  rcases pieces with _ | ⟨p, pieces⟩
  · simp at hmore
  have hne : valueOf p ≠ -1 := by
    rcases announced_cases hf hstream with ⟨h, -⟩ | ⟨n, hn, h⟩
    · rw [h]
      exact ofNat_ne_neg_one hf
    · rw [h]
      exact ofNat_ne_neg_one (by omega)
  by_cases hzero : valueOf p = 0
  · rw [talk_zero_size hzero] at hsame
    simp at hsame
  rw [talk_pieces hne hzero] at hsame
  rcases List.eq_nil_or_concat' pieces with rfl | ⟨pieces, q, rfl⟩
  · simp at hmore
  have hcount := congrArg List.length hsame
  have hlast := congrArg List.getLast? hsame
  simp only [List.length_cons, List.length_append, List.length_map, List.length_nil] at hcount hmore
  -- Only one read more, no final -1 of its own and one of the frames' can agree in number.
  rcases failure_cases (valueOf p) (((pieces ++ [q]).map valueOf).getLastD 0) with
    ⟨hquiet, hdone⟩ | ⟨hloud, -⟩
  · rcases failure_cases (Int32.ofNat f) (((ws.map frame).map valueOf).getLastD 0) with
      ⟨hquiet', -⟩ | ⟨hloud', hshort⟩
    · rw [hquiet, hquiet', List.length_nil] at hcount
      omega
    · rw [hquiet, hloud', List.append_nil, List.getLast?_concat, List.map_append, List.map_cons,
        List.map_nil, ← List.cons_append, List.getLast?_concat, Option.some.injEq] at hlast
      have hrepeat : valueOf q = valueOf p := by simpa using hdone.symm
      exact repeated_size hf hstream hzero hrepeat hshort hlast
  · have hfinal := failure_length_le (Int32.ofNat f) (((ws.map frame).map valueOf).getLastD 0)
    rw [hloud, List.length_singleton] at hcount
    omega

/-- A stream of frames is broadcast as when every read returns a frame exactly when
every read does. -/
theorem read_boundaries {f : Nat} (hpos : 1 ≤ f) (hf : f < 2 ^ 31) (ws : List Nat)
    (pieces : List Piece) (ending : Ending)
    (hstream : streamOf pieces = streamOf ((f :: ws).map frame)) :
    talkWithSocket (.connected pieces ending) =
        talkWithSocket (.connected ((f :: ws).map frame) ending) ↔
      ∀ p ∈ pieces, p.bytes.length = 4 := by
  constructor
  · intro hsame
    by_contra hcut
    have hmore : ws.length + 1 < pieces.length := by
      have hlen := congrArg List.length hstream
      rw [streamOf_frames_length, List.length_cons] at hlen
      by_contra hfew
      exact hcut (full_of_count (by omega))
    exact cut_shows hpos hf hstream hmore ending hsame
  · intro hfull
    rw [eq_frames_of_full hfull hstream]

/-- A last frame that is cut after its first byte. -/
theorem read_boundaries_cut :
    let cut : List Piece :=
      [frame 1, ⟨[1], by decide, by decide⟩, ⟨[0, 0, 0], by decide, by decide⟩]
    talkWithSocket (.connected cut .endOfStream) ≠
      talkWithSocket (.connected ([1, 1].map frame) .endOfStream) := by
  intro cut hsame
  have hstream : streamOf cut = streamOf ([1, 1].map frame) := by decide
  have hfull := (read_boundaries (by decide) (by decide) [1] cut .endOfStream hstream).mp hsame
  exact absurd hfull (by decide)

/-- The size 1 that arrives as one byte and three is a size and a written size. -/
theorem read_boundaries_fails :
    ¬ ∀ (f : Nat) (ws : List Nat) (pieces : List Piece) (ending : Ending), 1 ≤ f → f < 2 ^ 31 →
      (∀ w ∈ ws, w ≤ f) → streamOf pieces = streamOf ((f :: ws).map frame) →
      talkWithSocket (.connected pieces ending) =
        talkWithSocket (.connected ((f :: ws).map frame) ending) := by
  intro hall
  have hsame := hall 1 [] [⟨[1], by decide, by decide⟩, ⟨[0, 0, 0], by decide, by decide⟩]
    .endOfStream (by decide) (by decide) (by simp) rfl
  exact absurd hsame (by decide)

end VRAdmin
