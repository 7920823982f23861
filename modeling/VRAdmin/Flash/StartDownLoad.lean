import Mathlib.Data.Fintype.Basic
import VRAdmin.Foundation.Machine
import VRAdmin.Service.VRManager

/-! # Concurrent calls of startDownLoad

`startDownLoad` runs on binder threads, any number of them at once. A call is a row
of atomic steps over the flag `bRunning` that all calls share: it reads the flag,
sets it, starts its talker, runs `dfu-util` and clears the flag. The check and the
setting are two steps, and a call that reads between them passes the check as well.
-/

namespace VRAdmin

open Foundation

/-- The arguments of a call. -/
structure Firmware where
  dfuFilePath : Option JString
  vid : Option JString
  pid : Option JString

/-- A string as Java's concatenation writes it. -/
def concatenated (s : Option JString) : JString := s.getD (JString.lit "null")

/-- The line that `startDownLoad` hands to `systemCall`. -/
def Firmware.cmd (f : Firmware) : JString :=
  JString.lit "dfu-util -v -a 0 -s :mass-erase:force" ++
    (JString.lit " -d " ++ concatenated f.vid ++ JString.lit ":" ++ concatenated f.pid) ++
    (JString.lit " -D " ++ concatenated f.dfuFilePath ++ JString.lit " 2>&1")

/-- How far a call has come. -/
inductive Stage
  | notMade
  /-- It has read `bRunning` as false. -/
  | checked
  /-- It has set `bRunning`. -/
  | marked
  /-- It has started its talker. -/
  | talking
  /-- `dfu-util` runs. -/
  | flashing
  | flashed (result : JString)
  | returned (result : JString)
deriving DecidableEq

/-- The flag and the calls. -/
structure Downloads (C : Type) where
  bRunning : Bool
  stage : C → Stage

inductive DownloadEvent (C : Type)
  | talkerStarted (c : C)
  | commandStarted (c : C) (cmd : JString)
  | commandEnded (c : C)
  | returned (c : C) (result : JString)
deriving DecidableEq

section Calls

variable {C : Type} [DecidableEq C]

namespace Downloads

def idle : Downloads C := ⟨false, fun _ => .notMade⟩

def moved (s : Downloads C) (c : C) (st : Stage) : Downloads C :=
  { s with stage := Function.update s.stage c st }

def Flashing (s : Downloads C) (c : C) : Prop := s.stage c = .flashing

/-- The next step of the call `i.1`; `i.2` is what `systemCall` returns when the step
is the end of `dfu-util`. -/
def step (firmware : C → Firmware) (s : Downloads C) (i : C × JString) :
    Downloads C × List (DownloadEvent C) :=
  let c := i.1
  match s.stage c with
  | .notMade =>
      if s.bRunning then (s.moved c (.returned (JString.lit "-1")), [.returned c (JString.lit "-1")])
      else (s.moved c .checked, [])
  | .checked => ({ s.moved c .marked with bRunning := true }, [])
  | .marked => (s.moved c .talking, [.talkerStarted c])
  | .talking => (s.moved c .flashing, [.commandStarted c (firmware c).cmd])
  | .flashing => (s.moved c (.flashed i.2), [.commandEnded c])
  | .flashed result => ({ s.moved c (.returned result) with bRunning := false }, [.returned c result])
  | .returned _ => (s, [])

end Downloads

def downloads (firmware : C → Firmware) : Machine (Downloads C) (C × JString) (DownloadEvent C) :=
  ⟨Downloads.step firmware⟩

namespace Downloads

variable {firmware : C → Firmware} {s : Downloads C} {c : C}

@[simp] theorem moved_self (s : Downloads C) (c : C) (st : Stage) :
    (s.moved c st).stage c = st := by
  simp [moved]

@[simp] theorem moved_flag (s : Downloads C) (c : C) (st : Stage) :
    (s.moved c st).bRunning = s.bRunning := rfl

theorem moved_of_ne {d : C} (h : d ≠ c) (s : Downloads C) (st : Stage) :
    (s.moved c st).stage d = s.stage d := by
  simp [moved, h]

theorem step_refused (h : s.stage c = .notMade) (hf : s.bRunning = true) (result : JString) :
    (downloads firmware).step s (c, result) =
      (s.moved c (.returned (JString.lit "-1")), [.returned c (JString.lit "-1")]) := by
  simp [downloads, step, h, hf]

theorem step_checked (h : s.stage c = .notMade) (hf : s.bRunning = false) (result : JString) :
    (downloads firmware).step s (c, result) = (s.moved c .checked, []) := by
  simp [downloads, step, h, hf]

theorem step_marked (h : s.stage c = .checked) (result : JString) :
    (downloads firmware).step s (c, result) =
      ({ s.moved c .marked with bRunning := true }, []) := by
  simp [downloads, step, h]

theorem step_talking (h : s.stage c = .marked) (result : JString) :
    (downloads firmware).step s (c, result) = (s.moved c .talking, [.talkerStarted c]) := by
  simp [downloads, step, h]

theorem step_flashing (h : s.stage c = .talking) (result : JString) :
    (downloads firmware).step s (c, result) =
      (s.moved c .flashing, [.commandStarted c (firmware c).cmd]) := by
  simp [downloads, step, h]

theorem step_flashed (h : s.stage c = .flashing) (result : JString) :
    (downloads firmware).step s (c, result) =
      (s.moved c (.flashed result), [.commandEnded c]) := by
  simp [downloads, step, h]

theorem step_returned {kept : JString} (h : s.stage c = .flashed kept) (result : JString) :
    (downloads firmware).step s (c, result) =
      ({ s.moved c (.returned kept) with bRunning := false }, [.returned c kept]) := by
  simp [downloads, step, h]

theorem step_done {kept : JString} (h : s.stage c = .returned kept) (result : JString) :
    (downloads firmware).step s (c, result) = (s, []) := by
  simp [downloads, step, h]

end Downloads

/-! ## Who may be inside -/

/-- Past the check and not returned. -/
def Stage.inside : Stage → Bool
  | .notMade => false
  | .returned _ => false
  | _ => true

/-- Inside, with `bRunning` set. -/
def Stage.holds : Stage → Bool
  | .checked => false
  | st => st.inside

theorem Stage.inside_of_holds {st : Stage} (h : st.holds = true) : st.inside = true := by
  cases st <;> first | rfl | exact h

/-- No call reads the flag while another has read it and not yet set it. -/
def Serialized (s : Downloads C) (_log : List (DownloadEvent C)) (i : C × JString) : Prop :=
  s.stage i.1 = .notMade → ∀ c, s.stage c ≠ .checked

instance [Fintype C] (s : Downloads C) (log : List (DownloadEvent C)) (i : C × JString) :
    Decidable (Serialized s log i) :=
  inferInstanceAs (Decidable (_ → ∀ c, s.stage c ≠ .checked))

/-- At most one call is inside, and the flag tells whether it has set it. -/
structure Exclusive (s : Downloads C) : Prop where
  one : ∀ c d, (s.stage c).inside = true → (s.stage d).inside = true → c = d
  flag : s.bRunning = true ↔ ∃ c, (s.stage c).holds = true

namespace Exclusive

variable {s : Downloads C} {c : C}

omit [DecidableEq C] in
theorem idle : Exclusive (Downloads.idle : Downloads C) where
  one _ _ h := nomatch h
  flag := by simp [Downloads.idle, Stage.holds, Stage.inside]

theorem same (h : Exclusive s) {st : Stage} (hin : st.inside = (s.stage c).inside)
    (hholds : st.holds = (s.stage c).holds) : Exclusive (s.moved c st) := by
  have hsame (d : C) : ((s.moved c st).stage d).inside = (s.stage d).inside ∧
      ((s.moved c st).stage d).holds = (s.stage d).holds := by
    by_cases hd : d = c
    · rw [hd, Downloads.moved_self]
      exact ⟨hin, hholds⟩
    · rw [Downloads.moved_of_ne hd]
      exact ⟨rfl, rfl⟩
  refine ⟨fun a b ha hb => h.one a b ?_ ?_, ?_⟩
  · rwa [← (hsame a).1]
  · rwa [← (hsame b).1]
  · simp only [Downloads.moved_flag, (hsame _).2, h.flag]

theorem entered (h : Exclusive s) (hflag : s.bRunning = false)
    (hserial : ∀ d, s.stage d ≠ .checked) : Exclusive (s.moved c .checked) := by
  have hholds (d : C) : (s.stage d).holds = false := by
    rw [Bool.eq_false_iff]
    intro hd
    exact absurd (h.flag.mpr ⟨d, hd⟩) (by rw [hflag]; decide)
  have hnone (d : C) : (s.stage d).inside = false := by
    have hd := hholds d
    have hne := hserial d
    cases hst : s.stage d with
    | checked => exact (hne hst).elim
    | _ => rw [hst] at hd; exact hd
  have honly (d : C) (hd : ((s.moved c .checked).stage d).inside = true) : d = c := by
    by_contra hne
    rw [Downloads.moved_of_ne hne, hnone] at hd
    exact absurd hd (by decide)
  refine ⟨fun a b ha hb => (honly a ha).trans (honly b hb).symm, ?_⟩
  rw [Downloads.moved_flag, hflag]
  refine ⟨fun hf => absurd hf (by decide), ?_⟩
  rintro ⟨d, hd⟩
  have hdc := honly d (Stage.inside_of_holds hd)
  rw [hdc, Downloads.moved_self] at hd
  exact absurd hd (by decide)

theorem marked (h : Exclusive s) (hc : s.stage c = .checked) :
    Exclusive { s.moved c .marked with bRunning := true } := by
  have hin (d : C) (hd : ((s.moved c .marked).stage d).inside = true) :
      (s.stage d).inside = true := by
    by_cases hdc : d = c
    · rw [hdc, hc]
      rfl
    · rwa [Downloads.moved_of_ne hdc] at hd
  refine ⟨fun a b ha hb => h.one a b (hin a ha) (hin b hb), ?_⟩
  refine ⟨fun _ => ⟨c, ?_⟩, fun _ => rfl⟩
  show ((s.moved c .marked).stage c).holds = true
  rw [Downloads.moved_self]
  rfl

theorem left (h : Exclusive s) (hc : (s.stage c).holds = true) {st : Stage}
    (hst : st.inside = false) : Exclusive { s.moved c st with bRunning := false } := by
  have hnone (d : C) : ((s.moved c st).stage d).inside = false := by
    by_cases hdc : d = c
    · rw [hdc, Downloads.moved_self, hst]
    · rw [Downloads.moved_of_ne hdc, Bool.eq_false_iff]
      exact fun hd => hdc (h.one d c hd (Stage.inside_of_holds hc))
  refine ⟨fun a _ ha _ => absurd ha (by rw [hnone a]; decide), ?_⟩
  constructor
  · intro hf
    exact absurd hf Bool.false_ne_true
  · rintro ⟨d, hd⟩
    exact absurd (Stage.inside_of_holds hd) (by rw [hnone d]; decide)

theorem step (h : Exclusive s) (firmware : C → Firmware) {log : List (DownloadEvent C)}
    {i : C × JString} (hi : Serialized s log i) :
    Exclusive ((downloads firmware).step s i).1 := by
  obtain ⟨c, result⟩ := i
  cases hst : s.stage c with
  | notMade =>
      cases hflag : s.bRunning with
      | true =>
          rw [Downloads.step_refused hst hflag]
          exact h.same (by rw [hst]; rfl) (by rw [hst]; rfl)
      | false =>
          rw [Downloads.step_checked hst hflag]
          exact h.entered hflag (hi hst)
  | checked =>
      rw [Downloads.step_marked hst]
      exact h.marked hst
  | marked =>
      rw [Downloads.step_talking hst]
      exact h.same (by rw [hst]; rfl) (by rw [hst]; rfl)
  | talking =>
      rw [Downloads.step_flashing hst]
      exact h.same (by rw [hst]; rfl) (by rw [hst]; rfl)
  | flashing =>
      rw [Downloads.step_flashed hst]
      exact h.same (by rw [hst]; rfl) (by rw [hst]; rfl)
  | flashed kept =>
      rw [Downloads.step_returned hst]
      exact h.left (by rw [hst]; rfl) rfl
  | returned kept =>
      rw [Downloads.step_done hst]
      exact h

omit [DecidableEq C] in
/-- Until the call that is inside sets the flag, it is clear. -/
theorem flag_of_checked (h : Exclusive s) (hc : s.stage c = .checked) : s.bRunning = false := by
  rw [Bool.eq_false_iff]
  intro hf
  obtain ⟨d, hd⟩ := h.flag.mp hf
  have hdc := h.one d c (Stage.inside_of_holds hd) (by rw [hc]; rfl)
  rw [hdc, hc] at hd
  exact absurd hd (by decide)

end Exclusive

theorem reach_exclusive {firmware : C → Firmware} {s : Downloads C} {log : List (DownloadEvent C)}
    (h : (downloads firmware).Reach Serialized Downloads.idle s log) : Exclusive s :=
  h.invariant (P := fun s _ => Exclusive s) Exclusive.idle fun _ _ _ hs hi => hs.step firmware hi

/-! ## At most one flash -/

/-- What a call does not do itself leaves it where it is. -/
theorem step_other (firmware : C → Firmware) (s : Downloads C) {i : C × JString} {d : C}
    (hd : d ≠ i.1) : ((downloads firmware).step s i).1.stage d = s.stage d ∧
      ∀ cmd, .commandStarted d cmd ∉ ((downloads firmware).step s i).2 := by
  obtain ⟨c, result⟩ := i
  cases hst : s.stage c with
  | notMade =>
      cases hflag : s.bRunning with
      | true =>
          rw [Downloads.step_refused hst hflag]
          exact ⟨Downloads.moved_of_ne hd s _, by simp⟩
      | false =>
          rw [Downloads.step_checked hst hflag]
          exact ⟨Downloads.moved_of_ne hd s _, by simp⟩
  | checked =>
      rw [Downloads.step_marked hst]
      exact ⟨Downloads.moved_of_ne hd s _, by simp⟩
  | marked =>
      rw [Downloads.step_talking hst]
      exact ⟨Downloads.moved_of_ne hd s _, by simp⟩
  | talking =>
      rw [Downloads.step_flashing hst]
      exact ⟨Downloads.moved_of_ne hd s _, by simp [hd]⟩
  | flashing =>
      rw [Downloads.step_flashed hst]
      exact ⟨Downloads.moved_of_ne hd s _, by simp⟩
  | flashed kept =>
      rw [Downloads.step_returned hst]
      exact ⟨Downloads.moved_of_ne hd s _, by simp⟩
  | returned kept =>
      rw [Downloads.step_done hst]
      exact ⟨rfl, by simp⟩

theorem run_returned (firmware : C → Firmware) {s : Downloads C} {c : C} {kept : JString}
    (h : s.stage c = .returned kept) (more : List (C × JString)) :
    ((downloads firmware).run s more).1.stage c = .returned kept ∧
      ∀ cmd, .commandStarted c cmd ∉ ((downloads firmware).run s more).2 := by
  induction more generalizing s with
  | nil => exact ⟨h, by simp⟩
  | cons i more ih =>
      rw [Machine.run_cons]
      by_cases hc : c = i.1
      · rw [show i = (c, i.2) from Prod.ext hc.symm rfl, Downloads.step_done h]
        exact ih h
      · obtain ⟨hstage, hquiet⟩ := step_other firmware s hc
        obtain ⟨hrest, hnone⟩ := ih (hstage.trans h)
        refine ⟨hrest, fun cmd hmem => ?_⟩
        rcases List.mem_append.mp hmem with hmem | hmem
        · exact hquiet cmd hmem
        · exact hnone cmd hmem

/-- A call that passed the check runs on to its flash, whatever the flag. -/
theorem run_to_flash (firmware : C → Firmware) {s : Downloads C} {c : C}
    (h : s.stage c = .checked) :
    ∃ more : List (C × JString), ((downloads firmware).run s more).1.stage =
      Function.update s.stage c .flashing := by
  refine ⟨[(c, []), (c, []), (c, [])], ?_⟩
  rw [Machine.run_cons, Downloads.step_marked h, Machine.run_cons,
    Downloads.step_talking (by simp), Machine.run_cons, Downloads.step_flashing (by simp)]
  simp [Downloads.moved]

/-- A second read of the flag before the first reader has set it leads to two flashes. -/
theorem two_flashes (firmware : C → Firmware) {s : Downloads C} (h : Exclusive s) {c d : C}
    (hc : s.stage c = .checked) (hd : s.stage d = .notMade) (result : JString) :
    ∃ more, ((downloads firmware).run s ((d, result) :: more)).1.Flashing c ∧
      ((downloads firmware).run s ((d, result) :: more)).1.Flashing d := by
  have hne : c ≠ d := by
    rintro rfl
    rw [hc] at hd
    exact absurd hd (by decide)
  have hstep : (downloads firmware).step s (d, result) = (s.moved d .checked, []) :=
    Downloads.step_checked hd (h.flag_of_checked hc) result
  obtain ⟨first, hfirst⟩ := run_to_flash firmware (s := s.moved d .checked) (c := c)
    (by rw [Downloads.moved_of_ne hne, hc])
  obtain ⟨second, hsecond⟩ := run_to_flash firmware
    (s := ((downloads firmware).run (s.moved d .checked) first).1) (c := d)
    (by rw [hfirst, Function.update_of_ne hne.symm, Downloads.moved_self])
  refine ⟨first ++ second, ?_⟩
  rw [Machine.run_cons, hstep, Machine.run_append]
  simp only [Downloads.Flashing, hsecond, hfirst]
  simp [hne]

/-- As long as no call reads `bRunning` between another's read and its write, at most
one call is between the start and the end of its `dfu-util`, and a call made
meanwhile returns "-1" for good and starts none. A read that breaks this can be
followed by two flashes at once. -/
theorem one_flash {firmware : C → Firmware} {s : Downloads C} {log : List (DownloadEvent C)}
    (h : (downloads firmware).Reach Serialized Downloads.idle s log) :
    (∀ c d, s.Flashing c → s.Flashing d → c = d) ∧
    (∀ c d, s.Flashing c → s.stage d = .notMade → ∀ result (more : List (C × JString)),
      let r := (downloads firmware).run s ((d, result) :: more)
      r.1.stage d = .returned (JString.lit "-1") ∧ .returned d (JString.lit "-1") ∈ r.2 ∧
        ∀ cmd, .commandStarted d cmd ∉ r.2) ∧
    ∀ i, ¬ Serialized s log i → ∃ more c d, c ≠ d ∧
      ((downloads firmware).run s (i :: more)).1.Flashing c ∧
      ((downloads firmware).run s (i :: more)).1.Flashing d := by
  have hexclusive := reach_exclusive h
  refine ⟨?_, ?_, ?_⟩
  · intro c d hc hd
    exact hexclusive.one c d (by rw [hc]; rfl) (by rw [hd]; rfl)
  · intro c d hc hd result more
    have hflag : s.bRunning = true := hexclusive.flag.mpr ⟨c, by rw [hc]; rfl⟩
    have hstep : (downloads firmware).step s (d, result) = _ :=
      Downloads.step_refused hd hflag result
    obtain ⟨hstage, hnone⟩ := run_returned firmware
      (s := s.moved d (.returned (JString.lit "-1"))) (Downloads.moved_self s d _) more
    intro r
    have hr : r = _ := Machine.run_cons (downloads firmware) s (d, result) more
    rw [hstep] at hr
    rw [hr]
    refine ⟨hstage, by simp, fun cmd hmem => ?_⟩
    rcases List.mem_append.mp hmem with hmem | hmem
    · simp at hmem
    · exact hnone cmd hmem
  · intro i hi
    obtain ⟨d, result⟩ := i
    simp only [Serialized, Classical.not_imp, not_forall, not_not] at hi
    obtain ⟨hd, c, hc⟩ := hi
    obtain ⟨more, hflash⟩ := two_flashes firmware hexclusive hc hd result
    refine ⟨more, c, d, ?_, hflash⟩
    rintro rfl
    rw [hc] at hd
    exact absurd hd (by decide)

end Calls

/-- The arguments of every call of two test clients. -/
def testFirmware : Bool → Firmware :=
  fun _ => ⟨some (JString.lit "/data/fw.dfu"), some (JString.lit "0483"), none⟩

/-- A second call is made while the first one flashes. -/
theorem one_flash_second :
    let r := (downloads testFirmware).run Downloads.idle
      [(true, []), (true, []), (true, []), (true, [])]
    ((downloads testFirmware).run r.1 [(false, [])]).1.stage false =
      .returned (JString.lit "-1") := by
  intro r
  have hreach : (downloads testFirmware).Reach Serialized Downloads.idle r.1 ([] ++ r.2) :=
    Machine.Reach.start.run (by decide)
  have hflash : r.1.Flashing true := rfl
  exact ((one_flash hreach).2.1 true false hflash rfl [] []).1

/-- Both calls read the flag before either sets it. -/
theorem one_flash_fails :
    ¬ ∀ (s : Downloads Bool) (log : List (DownloadEvent Bool)),
      (downloads testFirmware).Reach (fun _ _ _ => True) Downloads.idle s log →
      ∀ c d, s.Flashing c → s.Flashing d → c = d := by
  intro hall
  let inputs : List (Bool × JString) :=
    [(true, []), (false, []), (true, []), (true, []), (true, []), (false, []), (false, []),
      (false, [])]
  have hreach : (downloads testFirmware).Reach (fun _ _ _ => True) Downloads.idle
      ((downloads testFirmware).run Downloads.idle inputs).1
      ([] ++ ((downloads testFirmware).run Downloads.idle inputs).2) :=
    Machine.Reach.start.run (by simp [inputs, Machine.Admits])
  exact absurd (hall _ _ hreach true false rfl rfl) (by decide)

/-- The device that `dfu-util` is told, when a client leaves the product out. -/
example : ((testFirmware true).cmd.drop 37).take 13 = JString.lit " -d 0483:null" := by decide

end VRAdmin
