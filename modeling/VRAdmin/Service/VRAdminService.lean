import Mathlib.Data.Finset.Card
import VRAdmin.Foundation.Machine
import VRAdmin.Service.VRManager

/-! # Monitors of VRAdminService

The part of the service stub that counts its clients. A registered monitor is kept
in `mCbs` and has a death recipient linked to it; the last death restores the two
VR settings. Monitors are told apart as `ArrayList.contains` does it; each call and
each death is one step, and the list stays below the largest Java `int`.
-/

namespace VRAdmin

open Foundation

def MSM_CMD_AUTOREFRESH : JString := JString.lit "/sys/class/graphics/fb0/msm_cmd_autorefresh_en"
def VR_GRALLOC_PROPERTY : JString := JString.lit "vr.gralloc.gfx_ubwc_disable"

structure VRAdminService (M : Type) where
  mClientCount : Int
  mCbs : List M
  /-- The monitors whose death recipient is linked and has not fired. -/
  recipients : List M

/-- What the clients and the binder driver can do. `links` tells whether
`linkToDeath`, if it is called, returns without a `RemoteException`. -/
inductive ServiceInput (M : Type)
  | registerMonitor (monitor : Option M) (links : Bool)
  | binderDied (monitor : M)
  | activityEnter
  | activityLeave
deriving DecidableEq

/-- The calls in the order in which they happen: those on the stub, and those that
it makes on its own setters. -/
inductive ServiceEvent (M : Type)
  | registerMonitor (monitor : Option M)
  | remoteException
  | binderDied (monitor : M)
  | activityEnter
  | activityLeave
  | setProperty (key value : JString)
  | setSystemNode (pathname freq : JString)
deriving DecidableEq

/-- Both VR settings get one value. -/
def applySettings (M : Type) (value : String) : List (ServiceEvent M) :=
  [.setProperty VR_GRALLOC_PROPERTY (JString.lit value),
    .setSystemNode MSM_CMD_AUTOREFRESH (JString.lit value)]

/-- The restore action of the last death. -/
def restore (M : Type) : List (ServiceEvent M) := applySettings M "0"

section Stub

variable {M : Type} [DecidableEq M]

namespace VRAdminService

def start : VRAdminService M := ⟨0, [], []⟩

def registerMonitor (s : VRAdminService M) (monitor : Option M) (links : Bool) :
    VRAdminService M × List (ServiceEvent M) :=
  match monitor with
  | none => (s, [])
  | some m =>
      if m ∈ s.mCbs then (s, [])
      else
        let s' := { s with mClientCount := s.mClientCount + 1, mCbs := s.mCbs ++ [m] }
        if links then ({ s' with recipients := s.recipients ++ [m] }, [])
        else (s', [.remoteException])

def binderDied (s : VRAdminService M) (monitor : M) : VRAdminService M × List (ServiceEvent M) :=
  let s' : VRAdminService M :=
    ⟨s.mClientCount - 1, s.mCbs.erase monitor, s.recipients.erase monitor⟩
  (s', if s'.mClientCount = 0 then restore M else [])

def step (s : VRAdminService M) : ServiceInput M → VRAdminService M × List (ServiceEvent M)
  | .registerMonitor monitor links =>
      let (s', events) := s.registerMonitor monitor links
      (s', .registerMonitor monitor :: events)
  | .binderDied monitor =>
      let (s', events) := s.binderDied monitor
      (s', .binderDied monitor :: events)
  | .activityEnter => (s, .activityEnter :: applySettings M "1")
  | .activityLeave => (s, .activityLeave :: applySettings M "0")

end VRAdminService

namespace VRAdminService

theorem registerMonitor_known {s : VRAdminService M} {m : M} (hm : m ∈ s.mCbs) (links : Bool) :
    s.registerMonitor (some m) links = (s, []) := by
  simp [registerMonitor, hm]

theorem registerMonitor_linked {s : VRAdminService M} {m : M} (hm : m ∉ s.mCbs) :
    s.registerMonitor (some m) true =
      (⟨s.mClientCount + 1, s.mCbs ++ [m], s.recipients ++ [m]⟩, []) := by
  simp [registerMonitor, hm]

theorem registerMonitor_failed {s : VRAdminService M} {m : M} (hm : m ∉ s.mCbs) :
    s.registerMonitor (some m) false =
      (⟨s.mClientCount + 1, s.mCbs ++ [m], s.recipients⟩, [.remoteException]) := by
  simp [registerMonitor, hm]

theorem registerMonitor_events (s : VRAdminService M) (monitor : Option M) (links : Bool) :
    (s.registerMonitor monitor links).2 = [] ∨
      links = false ∧ (s.registerMonitor monitor links).2 = [.remoteException] := by
  cases monitor with
  | none => exact Or.inl rfl
  | some m =>
      by_cases hm : m ∈ s.mCbs
      · exact Or.inl (by rw [registerMonitor_known hm])
      · cases links with
        | true => exact Or.inl (by rw [registerMonitor_linked hm])
        | false => exact Or.inr ⟨rfl, by rw [registerMonitor_failed hm]⟩

end VRAdminService

def adminService : Machine (VRAdminService M) (ServiceInput M) (ServiceEvent M) :=
  ⟨VRAdminService.step⟩

theorem step_registerMonitor (s : VRAdminService M) (monitor : Option M) (links : Bool) :
    adminService.step s (.registerMonitor monitor links) =
      ((s.registerMonitor monitor links).1,
        .registerMonitor monitor :: (s.registerMonitor monitor links).2) := rfl

theorem step_binderDied (s : VRAdminService M) (m : M) :
    adminService.step s (.binderDied m) =
      ((s.binderDied m).1,
        .binderDied m :: if s.mClientCount - 1 = 0 then restore M else []) := rfl

/-! ## The monitors that are registered and alive -/

/-- The registered live monitors after one more event. -/
def heard (live : Finset M) : ServiceEvent M → Finset M
  | .registerMonitor (some m) => insert m live
  | .binderDied m => live.erase m
  | _ => live

def alive (log : List (ServiceEvent M)) : Finset M := log.foldl heard ∅

theorem alive_append (log events : List (ServiceEvent M)) :
    alive (log ++ events) = events.foldl heard (alive log) := List.foldl_append

@[simp] theorem foldl_heard_settings (live : Finset M) (value : String) :
    (applySettings M value).foldl heard live = live := rfl

/-- Every `linkToDeath` succeeds, and only a linked recipient hears of a death. -/
def Faithful (s : VRAdminService M) (_log : List (ServiceEvent M)) : ServiceInput M → Prop
  | .registerMonitor _ links => links = true
  | .binderDied m => m ∈ s.recipients
  | _ => True

instance (s : VRAdminService M) (log : List (ServiceEvent M)) (i : ServiceInput M) :
    Decidable (Faithful s log i) := by
  cases i <;> unfold Faithful <;> infer_instance

/-- Count, list and recipients are in step with the registered live monitors. -/
structure Counted (s : VRAdminService M) (log : List (ServiceEvent M)) : Prop where
  count : s.mClientCount = s.mCbs.length
  nodup : s.mCbs.Nodup
  linked : s.recipients = s.mCbs
  alive_eq : s.mCbs.toFinset = alive log

namespace Counted

variable {s : VRAdminService M} {log : List (ServiceEvent M)}

theorem start : Counted (VRAdminService.start : VRAdminService M) [] :=
  ⟨rfl, List.nodup_nil, rfl, rfl⟩

theorem unheard (h : Counted s log) {events : List (ServiceEvent M)}
    (hevents : events.foldl heard (alive log) = alive log) : Counted s (log ++ events) :=
  ⟨h.count, h.nodup, h.linked, h.alive_eq.trans (by rw [alive_append, hevents])⟩

theorem registered (h : Counted s log) {m : M} (hm : m ∉ s.mCbs) :
    Counted ⟨s.mClientCount + 1, s.mCbs ++ [m], s.recipients ++ [m]⟩
      (log ++ [.registerMonitor (some m)]) where
  count := by
    have hcount := h.count
    dsimp only
    rw [List.length_append, List.length_singleton]
    omega
  nodup := List.nodup_append_comm.mp (List.nodup_cons.mpr ⟨hm, h.nodup⟩)
  linked := by rw [h.linked]
  alive_eq := by
    rw [alive_append, List.toFinset_append, h.alive_eq]
    exact Finset.union_comm _ _

theorem erased (h : Counted s log) {m : M} (hm : m ∈ s.mCbs) {events : List (ServiceEvent M)}
    (hevents : ∀ live : Finset M, events.foldl heard live = live) :
    Counted ⟨s.mClientCount - 1, s.mCbs.erase m, s.recipients.erase m⟩
      (log ++ .binderDied m :: events) where
  count := by
    have hpos := List.length_pos_of_mem hm
    have hlen := List.length_erase_of_mem hm
    have hcount := h.count
    dsimp only
    omega
  nodup := h.nodup.erase m
  linked := by rw [h.linked]
  alive_eq := by
    rw [alive_append, List.foldl_cons, hevents, heard, ← h.alive_eq]
    ext x
    simp only [List.mem_toFinset, Finset.mem_erase, h.nodup.mem_erase_iff]

theorem count_eq_card (h : Counted s log) : s.mClientCount = (alive log).card := by
  rw [h.count, ← h.alive_eq, List.toFinset_card_of_nodup h.nodup]

/-- A death restores the settings exactly when it leaves no registered live monitor. -/
theorem binderDied_events (h : Counted s log) {m : M} (hm : m ∈ s.recipients) :
    (s.binderDied m).2 = if alive (log ++ [.binderDied m]) = ∅ then restore M else [] := by
  rw [h.linked] at hm
  have hafter : Counted ⟨s.mClientCount - 1, s.mCbs.erase m, s.recipients.erase m⟩
      (log ++ [.binderDied m]) := h.erased hm fun _ => rfl
  have hzero : s.mClientCount - 1 = 0 ↔ alive (log ++ [.binderDied m]) = ∅ := by
    have hcard := hafter.count_eq_card
    dsimp only at hcard
    rw [hcard, Int.natCast_eq_zero, Finset.card_eq_zero]
  simp only [VRAdminService.binderDied, hzero]

theorem step (h : Counted s log) {i : ServiceInput M} (hi : Faithful s log i) :
    Counted (adminService.step s i).1 (log ++ (adminService.step s i).2) := by
  cases i with
  | registerMonitor monitor links =>
      have hlinks : links = true := hi
      subst hlinks
      cases monitor with
      | none => exact h.unheard rfl
      | some m =>
          by_cases hm : m ∈ s.mCbs
          · have hsame : insert m (alive log) = alive log := by
              rw [← h.alive_eq, Finset.insert_eq_of_mem (List.mem_toFinset.mpr hm)]
            rw [step_registerMonitor, VRAdminService.registerMonitor_known hm]
            exact h.unheard hsame
          · rw [step_registerMonitor, VRAdminService.registerMonitor_linked hm]
            exact h.registered hm
  | binderDied m =>
      have hm : m ∈ s.recipients := hi
      rw [h.linked] at hm
      refine h.erased hm fun live => ?_
      dsimp only [VRAdminService.binderDied]
      split
      · exact foldl_heard_settings live "0"
      · rfl
  | activityEnter => exact h.unheard rfl
  | activityLeave => exact h.unheard rfl

end Counted

theorem reach_counted {s : VRAdminService M} {log : List (ServiceEvent M)}
    (h : adminService.Reach Faithful VRAdminService.start s log) : Counted s log :=
  h.invariant Counted.start fun _ _ _ hs hi => hs.step hi

/-- In every run the count is the length of `mCbs` and the number of registered live
monitors, no monitor is kept twice, and the settings are restored by exactly those
deaths that leave no registered live monitor. -/
theorem monitor_count {s : VRAdminService M} {log : List (ServiceEvent M)}
    (h : adminService.Reach Faithful VRAdminService.start s log) :
    s.mClientCount = s.mCbs.length ∧ s.mClientCount = (alive log).card ∧ 0 ≤ s.mClientCount ∧
    s.mCbs.Nodup ∧ s.mCbs.toFinset = alive log ∧
    (∀ m, Faithful s log (.binderDied m) →
      (adminService.step s (.binderDied m)).2 =
        .binderDied m ::
          if alive (log ++ [.binderDied m]) = ∅ then
            [.setProperty VR_GRALLOC_PROPERTY (JString.lit "0"),
              .setSystemNode MSM_CMD_AUTOREFRESH (JString.lit "0")]
          else []) ∧
    ∀ monitor, (adminService.step s (.registerMonitor monitor true)).2 =
      [.registerMonitor monitor] := by
  have hcounted := reach_counted h
  refine ⟨hcounted.count, hcounted.count_eq_card, ?_, hcounted.nodup, hcounted.alive_eq, ?_, ?_⟩
  · rw [hcounted.count]
    omega
  · intro m hm
    exact congrArg (ServiceEvent.binderDied m :: ·) (hcounted.binderDied_events hm)
  · intro monitor
    rcases s.registerMonitor_events monitor true with hnone | hfailed
    · exact congrArg (ServiceEvent.registerMonitor monitor :: ·) hnone
    · exact absurd hfailed.1 (by decide)

/-- Two monitors, one registered twice, die; the second death restores. -/
theorem monitor_count_two :
    let inputs : List (ServiceInput Nat) :=
      [.registerMonitor (some 1) true, .registerMonitor (some 2) true,
        .registerMonitor (some 1) true, .binderDied 1]
    let r := adminService.run VRAdminService.start inputs
    r.1.mClientCount = 1 ∧ (adminService.step r.1 (.binderDied 2)).2 =
      [.binderDied 2, .setProperty VR_GRALLOC_PROPERTY (JString.lit "0"),
        .setSystemNode MSM_CMD_AUTOREFRESH (JString.lit "0")] := by
  intro inputs r
  have hreach : adminService.Reach Faithful VRAdminService.start r.1 ([] ++ r.2) :=
    Machine.Reach.start.run (by decide)
  obtain ⟨-, hcard, -, -, -, hdied, -⟩ := monitor_count hreach
  refine ⟨hcard, (hdied 2 (by decide)).trans ?_⟩
  rw [if_pos (by decide)]

end Stub

end VRAdmin
