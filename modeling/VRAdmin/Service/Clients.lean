import VRAdmin.Service.VRMode

/-! # Clients in VR mode

The stub does not look at who calls `activityEnter` and `activityLeave`; every call
writes the one property that all clients share. Here a call carries its client, so
that the history of a run tells which registered live clients are in VR mode.
-/

namespace VRAdmin

open Foundation

/-- A call of a client or its death. -/
inductive ClientInput (M : Type)
  | registerMonitor (m : M)
  | binderDied (m : M)
  | activityEnter (m : M)
  | activityLeave (m : M)
deriving DecidableEq

namespace ClientInput

variable {M : Type}

/-- What the stub gets of it; a client that registers is alive. -/
def onStub : ClientInput M → ServiceInput M
  | .registerMonitor m => .registerMonitor (some m) true
  | .binderDied m => .binderDied m
  | .activityEnter _ => .activityEnter
  | .activityLeave _ => .activityLeave

def event : ClientInput M → ServiceEvent M
  | .registerMonitor m => .registerMonitor (some m)
  | .binderDied m => .binderDied m
  | .activityEnter _ => .activityEnter
  | .activityLeave _ => .activityLeave

end ClientInput

section Clients

variable {M ι β : Type} [DecidableEq M]

def clientMode (mVRService : Option (VRManager (VRNativeService ι β) β)) :
    Machine (VRMode M ι β) (ClientInput M) (ClientInput M) where
  step s i := (((vrMode mVRService).step s i.onStub).1, [i])

/-! ## Who is in VR mode -/

/-- The clients that are registered and alive. -/
def live (log : List (ClientInput M)) : Finset M := alive (log.map ClientInput.event)

/-- The clients in VR mode after one more input. -/
def entered (inside : Finset M) : ClientInput M → Finset M
  | .registerMonitor _ => inside
  | .binderDied m => inside.erase m
  | .activityEnter m => insert m inside
  | .activityLeave m => inside.erase m

/-- The clients that have entered and not yet left. -/
def inside (log : List (ClientInput M)) : Finset M := log.foldl entered ∅

theorem live_append (log : List (ClientInput M)) (i : ClientInput M) :
    live (log ++ [i]) = heard (live log) i.event := by
  rw [live, List.map_append, alive_append]
  rfl

theorem inside_append (log : List (ClientInput M)) (i : ClientInput M) :
    inside (log ++ [i]) = entered (inside log) i := List.foldl_append

/-- Calls and deaths are those of registered live clients. -/
def Registered (_s : VRMode M ι β) (log : List (ClientInput M)) : ClientInput M → Prop
  | .registerMonitor _ => True
  | .binderDied m | .activityEnter m | .activityLeave m => m ∈ live log

instance (s : VRMode M ι β) (log : List (ClientInput M)) (i : ClientInput M) :
    Decidable (Registered s log i) := by
  cases i <;> unfold Registered <;> infer_instance

/-- The property is on while a registered live client is in VR mode, and off when
deaths have left none. -/
structure SettingHolds (s : VRMode M ι β) (log : List (ClientInput M)) : Prop where
  on : (∃ m ∈ live log, m ∈ inside log) → s.gralloc = ascii "1"
  off : live log = ∅ → (∃ m, .binderDied m ∈ log) → s.gralloc = ascii "0"

/-- A client leaves only when no other registered live client is in VR mode. -/
def LeavesAlone (_s : VRMode M ι β) (log : List (ClientInput M)) : ClientInput M → Prop
  | .activityLeave m => ∀ other ∈ live log, other ∈ inside log → other = m
  | _ => True

instance (s : VRMode M ι β) (log : List (ClientInput M)) (i : ClientInput M) :
    Decidable (LeavesAlone s log i) := by
  cases i <;> unfold LeavesAlone <;> infer_instance

/-! ## The stub's count and the history -/

theorem heard_onStub (s : VRAdminService M) (i : ClientInput M) (present : Finset M) :
    (adminService.step s i.onStub).2.foldl heard present = heard present i.event := by
  cases i with
  | registerMonitor m =>
      rcases s.registerMonitor_events (some m) true with hnone | hfailed
      · rw [ClientInput.onStub, step_registerMonitor, hnone]
        rfl
      · exact absurd hfailed.1 (by decide)
  | binderDied m =>
      rw [ClientInput.onStub, step_binderDied]
      split
      · rfl
      · rfl
  | activityEnter m => rfl
  | activityLeave m => rfl

/-- The stub counts the registered live clients, and only these are in VR mode. -/
structure Tracked (s : VRMode M ι β) (log : List (ClientInput M)) : Prop where
  counted : ∃ history, Counted s.admin history ∧ alive history = live log
  inside_live : inside log ⊆ live log

namespace Tracked

variable {s : VRMode M ι β} {log : List (ClientInput M)} {i : ClientInput M}
  {mVRService : Option (VRManager (VRNativeService ι β) β)}

theorem start (hs : s.admin = VRAdminService.start) : Tracked s [] where
  counted := ⟨[], by rw [hs]; exact Counted.start, rfl⟩
  inside_live := Finset.Subset.refl _

theorem count_eq (h : Tracked s log) : s.admin.mClientCount = (live log).card := by
  obtain ⟨history, hcounted, halive⟩ := h.counted
  rw [hcounted.count_eq_card, halive]

theorem faithful (h : Tracked s log) (hi : Registered s log i) (history : List (ServiceEvent M)) :
    Faithful s.admin history i.onStub := by
  cases i with
  | registerMonitor m => exact rfl
  | binderDied m =>
      obtain ⟨_, hcounted, halive⟩ := h.counted
      have hm : m ∈ live log := hi
      rw [← halive, ← hcounted.alive_eq, List.mem_toFinset, ← hcounted.linked] at hm
      exact hm
  | activityEnter m => trivial
  | activityLeave m => trivial

theorem inside_step (h : Tracked s log) (hi : Registered s log i) :
    entered (inside log) i ⊆ heard (live log) i.event := by
  cases i with
  | registerMonitor m => exact h.inside_live.trans (Finset.subset_insert m _)
  | binderDied m => exact Finset.erase_subset_erase m h.inside_live
  | activityEnter m => exact Finset.insert_subset hi h.inside_live
  | activityLeave m => exact (Finset.erase_subset m _).trans h.inside_live

theorem step (h : Tracked s log) (hi : Registered s log i) :
    Tracked ((clientMode mVRService).step s i).1 (log ++ [i]) where
  counted := by
    obtain ⟨history, hcounted, halive⟩ := h.counted
    refine ⟨_, hcounted.step (h.faithful hi history), ?_⟩
    rw [alive_append, heard_onStub, halive, live_append]
  inside_live := by
    rw [inside_append, live_append]
    exact h.inside_step hi

/-- A death asks for the restored setting exactly when it leaves no client. -/
theorem last_death (h : Tracked s log) {m : M} (hm : m ∈ live log) :
    settingOf s.admin (.binderDied m) = if (live log).erase m = ∅ then some "0" else none := by
  have hcard := Finset.card_erase_add_one hm
  have hcount := h.count_eq
  have hzero : s.admin.mClientCount - 1 = 0 ↔ (live log).erase m = ∅ := by
    rw [← Finset.card_eq_zero]
    omega
  simp only [settingOf, hzero]

end Tracked

/-! ## Runs and their histories -/

theorem run_history (mVRService : Option (VRManager (VRNativeService ι β) β)) (s : VRMode M ι β)
    (inputs : List (ClientInput M)) : ((clientMode mVRService).run s inputs).2 = inputs := by
  induction inputs generalizing s with
  | nil => rfl
  | cons i rest ih =>
      rw [Machine.run_cons, ih]
      rfl

theorem run_tracked {mVRService : Option (VRManager (VRNativeService ι β) β)} {s : VRMode M ι β}
    (hs : s.admin = VRAdminService.start) {inputs : List (ClientInput M)}
    (hadmits : (clientMode mVRService).Admits Registered s [] inputs) :
    Tracked ((clientMode mVRService).run s inputs).1 inputs := by
  have hreach := Machine.Reach.start.run hadmits
  have htracked := hreach.invariant (Tracked.start hs) fun _ _ _ ht hi => ht.step hi
  rwa [List.nil_append, run_history] at htracked

theorem run_snoc (mVRService : Option (VRManager (VRNativeService ι β) β)) (s : VRMode M ι β)
    (inputs : List (ClientInput M)) (i : ClientInput M) :
    ((clientMode mVRService).run s (inputs ++ [i])).1 =
      ((clientMode mVRService).step ((clientMode mVRService).run s inputs).1 i).1 := by
  rw [Machine.run_append]
  rfl

theorem admits_snoc {mVRService : Option (VRManager (VRNativeService ι β) β)}
    {allowed : VRMode M ι β → List (ClientInput M) → ClientInput M → Prop} {s : VRMode M ι β}
    {inputs : List (ClientInput M)} {i : ClientInput M} :
    (clientMode mVRService).Admits allowed s [] (inputs ++ [i]) ↔
      (clientMode mVRService).Admits allowed s [] inputs ∧
        allowed ((clientMode mVRService).run s inputs).1 inputs i := by
  rw [Machine.admits_append, List.nil_append, run_history]
  exact and_congr_right fun _ => and_iff_left trivial

/-! ## The shared setting -/

section Setting

variable {P : Type} [DecidableEq ι] {kernel : Kernel ι β}
  {Unread : P → List (ParcelValue β) → Prop} {env : StubEnv P β}
  {remote : Transact (VRNativeService ι β) P} {s : VRMode M ι β} {log : List (ClientInput M)}

theorem leave_gralloc (h : Serving kernel Unread env remote) (s : VRMode M ι β) (m : M) :
    ((clientMode (managerOf env.ops remote)).step s (.activityLeave m)).1.gralloc = ascii "0" :=
  step_gralloc h s .activityLeave

theorem died_gralloc (h : Serving kernel Unread env remote) (ht : Tracked s log) {m : M}
    (hm : m ∈ live log) :
    ((clientMode (managerOf env.ops remote)).step s (.binderDied m)).1.gralloc =
      if (live log).erase m = ∅ then ascii "0" else s.gralloc := by
  have hstep := step_gralloc h s (.binderDied m)
  rw [ht.last_death hm] at hstep
  by_cases hlast : (live log).erase m = ∅
  · rw [if_pos hlast] at hstep ⊢
    exact hstep
  · rw [if_neg hlast] at hstep ⊢
    exact hstep

theorem SettingHolds.step (h : Serving kernel Unread env remote) (ht : Tracked s log)
    (hs : SettingHolds s log) {i : ClientInput M} (hi : Registered s log i)
    (halone : LeavesAlone s log i) :
    SettingHolds ((clientMode (managerOf env.ops remote)).step s i).1 (log ++ [i]) := by
  cases i with
  | registerMonitor m =>
      have hkept : ((clientMode (managerOf env.ops remote)).step s
          (.registerMonitor m)).1.gralloc = s.gralloc := step_gralloc h s _
      refine ⟨fun hin => ?_, fun hnone => ?_⟩
      · obtain ⟨c, -, hc⟩ := hin
        rw [inside_append] at hc
        exact hkept.trans (hs.on ⟨c, ht.inside_live hc, hc⟩)
      · rw [live_append] at hnone
        exact absurd hnone (Finset.insert_ne_empty m _)
  | binderDied m =>
      have hgralloc := died_gralloc h ht hi
      refine ⟨fun hin => ?_, fun hnone _ => ?_⟩
      · obtain ⟨c, hc, hcin⟩ := hin
        rw [live_append] at hc
        rw [inside_append] at hcin
        have hsome : (live log).erase m ≠ ∅ := Finset.ne_empty_of_mem hc
        rw [hgralloc, if_neg hsome]
        exact hs.on ⟨c, Finset.mem_of_mem_erase hc, Finset.mem_of_mem_erase hcin⟩
      · rw [live_append] at hnone
        exact hgralloc.trans (if_pos hnone)
  | activityEnter m =>
      refine ⟨fun _ => step_gralloc_enter h s, fun hnone => ?_⟩
      rw [live_append] at hnone
      exact absurd hnone (Finset.ne_empty_of_mem hi)
  | activityLeave m =>
      refine ⟨fun hin => ?_, fun _ _ => leave_gralloc h s m⟩
      obtain ⟨c, hc, hcin⟩ := hin
      rw [live_append] at hc
      rw [inside_append] at hcin
      -- whoever is still inside was inside before and is not the one that leaves
      obtain ⟨hne, hbefore⟩ := Finset.mem_erase.mp hcin
      exact absurd (halone c hc hbefore) hne

/-- A client that leaves while another is in VR mode turns it off for the other. -/
theorem not_settingHolds_leave (h : Serving kernel Unread env remote) {m : M}
    (hothers : ¬ LeavesAlone s log (.activityLeave m)) :
    ¬ SettingHolds ((clientMode (managerOf env.ops remote)).step s (.activityLeave m)).1
      (log ++ [.activityLeave m]) := by
  intro hs
  simp only [LeavesAlone, not_forall] at hothers
  obtain ⟨c, hc, hcin, hne⟩ := hothers
  have hon := hs.on ⟨c, by rw [live_append]; exact hc,
    by rw [inside_append]; exact Finset.mem_erase.mpr ⟨hne, hcin⟩⟩
  rw [leave_gralloc h] at hon
  exact absurd hon (by decide)

theorem run_setting (h : Serving kernel Unread env remote) (hs : s.admin = VRAdminService.start)
    (inputs : List (ClientInput M))
    (hadmits : (clientMode (managerOf env.ops remote)).Admits Registered s [] inputs)
    (halone : (clientMode (managerOf env.ops remote)).Admits LeavesAlone s [] inputs) :
    SettingHolds ((clientMode (managerOf env.ops remote)).run s inputs).1 inputs := by
  induction inputs using List.reverseRecOn with
  | nil => exact ⟨fun ⟨_, hnone, _⟩ => absurd hnone (Finset.notMem_empty _),
      fun _ ⟨_, hnone⟩ => absurd hnone List.not_mem_nil⟩
  | append_singleton inputs i ih =>
      obtain ⟨hadmits, hi⟩ := admits_snoc.mp hadmits
      obtain ⟨halone, hlast⟩ := admits_snoc.mp halone
      rw [run_snoc]
      exact (ih hadmits halone).step h (run_tracked hs hadmits) hi hlast

theorem run_leavesAlone (h : Serving kernel Unread env remote) (inputs : List (ClientInput M))
    (hall : ∀ done, done <+: inputs →
      SettingHolds ((clientMode (managerOf env.ops remote)).run s done).1 done) :
    (clientMode (managerOf env.ops remote)).Admits LeavesAlone s [] inputs := by
  induction inputs using List.reverseRecOn with
  | nil => trivial
  | append_singleton inputs i ih =>
      have hbefore := ih fun done hdone => hall done (hdone.trans (List.prefix_append inputs [i]))
      refine admits_snoc.mpr ⟨hbefore, ?_⟩
      cases i with
      | activityLeave m =>
          by_contra hothers
          have hafter := hall _ (List.prefix_refl _)
          rw [run_snoc] at hafter
          exact not_settingHolds_leave h hothers hafter
      | _ => trivial

/-- Over a run of registered clients the property is on whenever one of them is in VR
mode, and off once they are all dead, exactly when each client that leaves is alone
in VR mode. -/
theorem leave_keeps_mode (h : Serving kernel Unread env remote)
    (hs : s.admin = VRAdminService.start) {inputs : List (ClientInput M)}
    (hadmits : (clientMode (managerOf env.ops remote)).Admits Registered s [] inputs) :
    (∀ done, done <+: inputs →
        SettingHolds ((clientMode (managerOf env.ops remote)).run s done).1 done) ↔
      (clientMode (managerOf env.ops remote)).Admits LeavesAlone s [] inputs := by
  constructor
  · exact run_leavesAlone h inputs
  · intro halone done hdone
    obtain ⟨rest, rfl⟩ := hdone
    exact run_setting h hs done ((Machine.admits_append _ _ _ _ _ _).mp hadmits).1
      ((Machine.admits_append _ _ _ _ _ _).mp halone).1

end Setting

/-- One client after the other is in VR mode, and both die. -/
def handOver : List (ClientInput Nat) :=
  [.registerMonitor 1, .registerMonitor 2, .activityEnter 1, .activityLeave 1, .activityEnter 2,
    .binderDied 1, .binderDied 2]

theorem leave_keeps_mode_handOver :
    SettingHolds ((clientMode (managerOf listStub.ops quietRemote)).run quietStart handOver).1
      handOver :=
  (leave_keeps_mode quiet_serving rfl (by decide +kernel)).mpr (by decide +kernel) handOver
    (List.prefix_refl _)

/-- The second client enters before the first one leaves. -/
def overlap : List (ClientInput Nat) :=
  [.registerMonitor 1, .registerMonitor 2, .activityEnter 1, .activityEnter 2, .activityLeave 1]

theorem leave_keeps_mode_fails :
    ¬ ∀ inputs : List (ClientInput Nat),
      (clientMode (managerOf listStub.ops quietRemote)).Admits Registered quietStart [] inputs →
      SettingHolds ((clientMode (managerOf listStub.ops quietRemote)).run quietStart inputs).1
        inputs := by
  intro hall
  have hsetting := hall overlap (by decide +kernel)
  have hon := hsetting.on ⟨2, by decide, by decide⟩
  exact absurd hon (by decide +kernel)

end Clients

end VRAdmin
