import VRAdmin.Server.Keywords

/-! # How far a request is scanned

The scans that `postSelect` makes on `rbuff`, each by the number of bytes it looks at
from the start of the buffer: a comparison ends at its first difference or at a NUL,
the string behind a feature keyword at a NUL only. What lies behind `rbuff` on the
stack is arbitrary.
-/

namespace VRAdmin

open Foundation ClientConnector

/-! ## The scans -/

/-- The bytes of the first string that a comparison looks at. -/
def compareReach (fold : UInt8 → UInt8) : Nat → Bytes → Bytes → Nat
  | 0, _, _ => 0
  | n + 1, a, b =>
      let x := a.headD 0
      let y := b.headD 0
      if fold x ≠ fold y then 1
      else if x = 0 then 1
      else compareReach fold n a.tail b.tail + 1

theorem compareReach_le (fold : UInt8 → UInt8) (n : Nat) (a b : Bytes) :
    compareReach fold n a b ≤ n := by
  induction n generalizing a b with
  | zero => exact Nat.le_refl 0
  | succ n ih =>
      have hrec := ih a.tail b.tail
      unfold compareReach
      dsimp only
      split
      · omega
      · split <;> omega

/-- The bytes up to the terminator. -/
def stringReach (mem : Bytes) : Nat := (cstr mem).length + 1

/-- The comparisons up to the first that answers zero. -/
def keywordScans (mem : Bytes) : List Keyword → List Nat
  | [] => []
  | k :: rest =>
      compareReach tolower k.compared mem k.text ::
        if k.Selects mem then [] else keywordScans mem rest

/-- The string that `getFeature` makes of `r + 12`. -/
def Keyword.versionScans (k : Keyword) (db : XmlDatabase) (mem : Bytes) : List Nat :=
  match k.featureType with
  | none => []
  | some type => if db.getSDK type = none then [] else [12 + stringReach (mem.drop 12)]

/-- The scans of a chunk: the `quit` test, the keywords, the version asked for. -/
def requestScans (db : XmlDatabase) (c : Chunk) (behind : Bytes) : List Nat :=
  let mem := rbuff c ++ behind
  if c.bytes = [] then []
  else
    compareReach id 4 mem (ascii "quit") ::
      if isQuit c then []
      else
        keywordScans mem Keyword.all ++
          match selected mem with
          | none => []
          | some k => k.versionScans db mem

/-- The `%s` of the log line behind a successful write. -/
def logScans (c : Chunk) (behind : Bytes) (written : Option Nat) : List Nat :=
  if isQuit c ∨ written = none then [] else [stringReach (rbuff c ++ behind)]

/-! ## Where they end -/

theorem overruns_iff (db : XmlDatabase) (c : Chunk) :
    Overruns db c ↔ (0 : UInt8) ∉ rbuff c ∧ ∃ k type, Keyword.featureType k = some type ∧
      k.Selects (rbuff c) ∧ db.getSDK type ≠ none := by
  refine and_congr_right fun _ => ⟨?_, ?_⟩
  · rintro (⟨hsel, hsdk⟩ | ⟨hsel, hsdk⟩)
    · exact ⟨.lvrFeature, _, rfl, hsel, hsdk⟩
    · exact ⟨.svrFeature, _, rfl, hsel, hsdk⟩
  · rintro ⟨k, type, htype, hsel, hsdk⟩
    cases k with
    | supportSdks => cases htype
    | lvrSdkVersion => cases htype
    | svrSdkVersion => cases htype
    | lvrFeature =>
        cases htype
        exact Or.inl ⟨hsel, hsdk⟩
    | svrFeature =>
        cases htype
        exact Or.inr ⟨hsel, hsdk⟩

theorem keywordScans_le (mem : Bytes) (ks : List Keyword) :
    ∀ n ∈ keywordScans mem ks, n ≤ buffSize + 1 := by
  induction ks with
  | nil => simp [keywordScans]
  | cons k rest ih =>
      rw [keywordScans]
      intro n hn
      rcases List.mem_cons.mp hn with rfl | hn
      · exact Nat.le_trans (compareReach_le _ _ _ _) k.compared_le_rbuff
      · split at hn
        · simp at hn
        · exact ih n hn

theorem Keyword.compared_feature {k : Keyword} {type : CString} (h : k.featureType = some type) :
    k.compared = 12 ∧ (cstr k.text).length = 12 := by
  cases k with
  | supportSdks => cases h
  | lvrSdkVersion => cases h
  | svrSdkVersion => cases h
  | lvrFeature => decide
  | svrFeature => decide

theorem stringReach_le_of_nul {front : Bytes} (h : (0 : UInt8) ∈ front) (behind : Bytes) :
    stringReach (front ++ behind) ≤ front.length := by
  have hlt := cstr_length_lt h
  rw [stringReach, cstr_append_of_nul h]
  omega

theorem lt_stringReach_of_noNul {front : Bytes} (h : (0 : UInt8) ∉ front) :
    front.length < stringReach front := by
  rw [stringReach, cstr_eq_self h]
  exact Nat.lt_succ_self _

/-- The version scan of a selected feature request ends in `rbuff` with the string. -/
theorem versionScans_le {db : XmlDatabase} {c : Chunk} (hsafe : ¬ Overruns db c) {k : Keyword}
    (hsel : k.Selects (rbuff c)) (behind : Bytes) :
    ∀ n ∈ k.versionScans db (rbuff c ++ behind), n ≤ buffSize + 1 := by
  intro n hn
  unfold Keyword.versionScans at hn
  cases htype : k.featureType with
  | none => simp [htype] at hn
  | some type =>
      obtain ⟨hcompared, htext⟩ := Keyword.compared_feature htype
      simp only [htype] at hn
      by_cases hsdk : db.getSDK type = none
      · simp [hsdk] at hn
      · have hnul : (0 : UInt8) ∈ rbuff c := by
          by_contra hnone
          exact hsafe ((overruns_iff db c).mpr ⟨hnone, k, type, htype, hsel, hsdk⟩)
        have htail : (0 : UInt8) ∈ (rbuff c).drop 12 := by
          have hsel' : strncasecmp (rbuff c) k.text 12 = 0 := hcompared ▸ hsel
          exact nul_mem_drop_of_keyword htext hsel' hnul
        have hreach := stringReach_le_of_nul htail behind
        rw [if_neg hsdk, List.mem_singleton, rbuff_append_drop] at hn
        rw [List.length_drop, rbuff_length] at hreach
        have hbuff : buffSize = 64 := rfl
        omega

theorem requestScans_le {db : XmlDatabase} {c : Chunk} (hsafe : ¬ Overruns db c)
    (behind : Bytes) : ∀ n ∈ requestScans db c behind, n ≤ buffSize + 1 := by
  intro n hn
  unfold requestScans at hn
  dsimp only at hn
  split at hn
  · simp at hn
  rcases List.mem_cons.mp hn with rfl | hn
  · exact Nat.le_trans (compareReach_le _ _ _ _) (by decide)
  split at hn
  · simp at hn
  rcases List.mem_append.mp hn with hn | hn
  · exact keywordScans_le _ _ n hn
  cases hs : selected (rbuff c ++ behind) with
  | none => simp [hs] at hn
  | some k =>
      rw [hs] at hn
      have hsel := (k.selects_append c behind).mp ((selected_eq_some_iff _ k).mp hs)
      exact versionScans_le hsafe hsel behind n hn

theorem requestScans_overrun {db : XmlDatabase} {c : Chunk} (h : Overruns db c) :
    ∃ n ∈ requestScans db c [], buffSize + 1 < n := by
  obtain ⟨hnone, k, type, htype, hsel, hsdk⟩ := (overruns_iff db c).mp h
  have hrunning : isQuit c = false := by
    cases hq : isQuit c with
    | false => rfl
    | true => exact absurd h (not_overruns_of_isQuit hq)
  have hbytes : c.bytes ≠ [] := by
    intro hnil
    rw [isQuit, hnil] at hrunning
    exact absurd hrunning (by simp)
  have htail : (0 : UInt8) ∉ (rbuff c).drop 12 := fun hmem => hnone (List.mem_of_mem_drop hmem)
  have hreach := lt_stringReach_of_noNul htail
  rw [List.length_drop, rbuff_length] at hreach
  refine ⟨12 + stringReach ((rbuff c).drop 12), ?_, ?_⟩
  · unfold requestScans
    dsimp only
    rw [List.append_nil, if_neg hbytes, hrunning, (selected_eq_some_iff _ k).mpr hsel]
    refine List.mem_cons_of_mem _ (List.mem_append_right _ ?_)
    simp only [Keyword.versionScans, htype, hsdk, if_false]
    exact List.mem_singleton_self _
  · have hbuff : buffSize = 64 := rfl
    omega

/-- What the kernel returned and the stack decide `postSelect` through the bytes read. -/
theorem postSelect_behind {db : XmlDatabase} {c : Chunk} (hsafe : ¬ Overruns db c)
    (behind : Bytes) (conn : Int) (rset : List Int) (write : Option Nat) :
    postSelect conn db rset ⟨.chunk c, write, behind⟩ =
      postSelect conn db rset ⟨.chunk c, write, []⟩ := by
  unfold postSelect
  dsimp only
  rw [answer_rbuff_append hsafe, answer_rbuff_append hsafe]

theorem mem_logScans {c : Chunk} {behind : Bytes} {write : Option Nat} {n : Nat} :
    n ∈ logScans c behind write ↔
      isQuit c = false ∧ write ≠ none ∧ n = stringReach (rbuff c ++ behind) := by
  unfold logScans
  by_cases hskip : isQuit c = true ∨ write = none
  · rw [if_pos hskip]
    refine ⟨fun h => absurd h List.not_mem_nil, ?_⟩
    rintro ⟨hq, hw, -⟩
    rcases hskip with hquit | hnone
    · exact absurd (hq.symm.trans hquit) Bool.false_ne_true
    · exact absurd hnone hw
  · obtain ⟨hq, hw⟩ := not_or.mp hskip
    rw [if_neg hskip, List.mem_singleton]
    exact ⟨fun h => ⟨by simpa using hq, hw, h⟩, fun h => h.2.2⟩

/-- The scans of a chunk end within `rbuff`, and the outcome is a function of the bytes
read, exactly when the chunk does not overrun. With the log line the scans end there
exactly when the connection ends, a terminator was read or left, or nothing is logged. -/
theorem request_scans (db : XmlDatabase) (c : Chunk) :
    ((∀ behind : Bytes, (∀ n ∈ requestScans db c behind, n ≤ buffSize + 1) ∧
        ∀ (conn : Int) (rset : List Int) (write : Option Nat),
          postSelect conn db rset ⟨.chunk c, write, behind⟩ =
            postSelect conn db rset ⟨.chunk c, write, []⟩) ↔
      ¬ Overruns db c) ∧
    ∀ write : Option Nat,
      (∀ behind : Bytes, ∀ n ∈ requestScans db c behind ++ logScans c behind write,
          n ≤ buffSize + 1) ↔
        isQuit c = true ∨ (0 : UInt8) ∈ rbuff c ∨ write = none ∧ ¬ Overruns db c := by
  have hescapes (h : Overruns db c) : ¬ ∀ n ∈ requestScans db c [], n ≤ buffSize + 1 := by
    obtain ⟨n, hn, hlt⟩ := requestScans_overrun h
    exact fun hall => absurd (hall n hn) (Nat.not_le.mpr hlt)
  refine ⟨⟨fun h hover => hescapes hover (h []).1, fun hsafe behind => ?_⟩, fun write => ⟨?_, ?_⟩⟩
  · exact ⟨requestScans_le hsafe behind, postSelect_behind hsafe behind⟩
  · intro h
    have hsafe : ¬ Overruns db c := fun hover =>
      hescapes hover fun n hn => h [] n (List.mem_append_left _ hn)
    by_contra hcon
    obtain ⟨hquit, hrest⟩ := not_or.mp hcon
    obtain ⟨hnone, hwrite⟩ := not_or.mp hrest
    have hlogged : write ≠ none := fun hw => hwrite ⟨hw, hsafe⟩
    have hend := h [] _ (List.mem_append_right _
      (mem_logScans.mpr ⟨by simpa using hquit, hlogged, rfl⟩))
    have hlt := lt_stringReach_of_noNul hnone
    rw [rbuff_length] at hlt
    rw [List.append_nil] at hend
    omega
  · rintro hcases behind n hn
    have hsafe : ¬ Overruns db c := by
      rcases hcases with hquit | hnul | ⟨-, hsafe⟩
      · exact not_overruns_of_isQuit hquit
      · exact fun hover => hover.1 hnul
      · exact hsafe
    rcases List.mem_append.mp hn with hn | hn
    · exact requestScans_le hsafe behind n hn
    · obtain ⟨hq, hw, rfl⟩ := mem_logScans.mp hn
      rcases hcases with hquit | hnul | ⟨hnone, -⟩
      · exact absurd (hq.symm.trans hquit) Bool.false_ne_true
      · rw [← rbuff_length c]
        exact stringReach_le_of_nul hnul behind
      · exact absurd hnone hw

theorem request_scans_fails :
    ¬ ∀ (db : XmlDatabase) (c : Chunk) (behind : Bytes),
      (∀ n ∈ requestScans db c behind, n ≤ buffSize + 1) ∧
        ∀ (conn : Int) (rset : List Int) (write : Option Nat),
          postSelect conn db rset ⟨.chunk c, write, behind⟩ =
            postSelect conn db rset ⟨.chunk c, write, []⟩ := by
  intro hall
  have hends := (hall ⟨[VrSDK.make (CString.lit "LVR") (CString.lit "1")]⟩
    ⟨ascii "lvr_feature:" ++ List.replicate 53 97, by decide⟩ []).1 66 (by decide +kernel)
  exact absurd hends (by decide)

end VRAdmin
