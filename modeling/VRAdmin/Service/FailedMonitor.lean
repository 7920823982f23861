import VRAdmin.Service.VRAdminService

/-! # A registration that fails

`registerMonitor` counts and keeps its monitor before it calls `linkToDeath`, and
nothing takes either back when that call throws. The monitor then stays in `mCbs`
for good, since only its death recipient, which is not linked, would remove it.
-/

namespace VRAdmin

open Foundation

section Stub

variable {M : Type}

/-- Only a linked recipient hears of a death; `linkToDeath` may fail. -/
def Linked (s : VRAdminService M) (_log : List (ServiceEvent M)) : ServiceInput M → Prop
  | .binderDied m => m ∈ s.recipients
  | _ => True

instance [DecidableEq M] (s : VRAdminService M) (log : List (ServiceEvent M)) :
    ∀ i, Decidable (Linked s log i)
  | .binderDied m => inferInstanceAs (Decidable (m ∈ s.recipients))
  | .registerMonitor _ _ | .activityEnter | .activityLeave => isTrue trivial

/-- The count is that of the list, which has every monitor with a recipient. -/
structure Listed (s : VRAdminService M) : Prop where
  count : s.mClientCount = s.mCbs.length
  linked : s.recipients.Sublist s.mCbs

theorem Listed.start : Listed (VRAdminService.start : VRAdminService M) :=
  ⟨rfl, List.Sublist.refl _⟩

theorem Listed.count_succ {s : VRAdminService M} (h : Listed s) (m : M) :
    s.mClientCount + 1 = (s.mCbs ++ [m]).length := by
  rw [h.count, List.length_append, List.length_singleton, Int.natCast_succ]

/-- A monitor that is counted and will not be heard to die. -/
structure Stranded (m : M) (s : VRAdminService M) : Prop extends Listed s where
  kept : m ∈ s.mCbs
  unlinked : m ∉ s.recipients

theorem Stranded.count_pos {m : M} {s : VRAdminService M} (h : Stranded m s) :
    1 ≤ s.mClientCount := by
  have hpos := List.length_pos_of_mem h.kept
  rw [h.count]
  omega

variable [DecidableEq M]

theorem VRAdminService.registerMonitor_cases (s : VRAdminService M) (monitor : Option M)
    (links : Bool) :
    (s.registerMonitor monitor links).1 = s ∨ ∃ m, m ∉ s.mCbs ∧
      (s.registerMonitor monitor links).1 =
        ⟨s.mClientCount + 1, s.mCbs ++ [m], s.recipients ++ if links then [m] else []⟩ := by
  cases monitor with
  | none => exact Or.inl rfl
  | some m =>
      by_cases hm : m ∈ s.mCbs
      · exact Or.inl (by rw [registerMonitor_known hm])
      · refine Or.inr ⟨m, hm, ?_⟩
        cases links with
        | true => rw [registerMonitor_linked hm, if_pos rfl]
        | false => rw [registerMonitor_failed hm, if_neg Bool.false_ne_true, List.append_nil]

namespace Listed

variable {s : VRAdminService M}

theorem registerMonitor (h : Listed s) (monitor : Option M) (links : Bool) :
    Listed (s.registerMonitor monitor links).1 := by
  rcases s.registerMonitor_cases monitor links with hsame | ⟨m, -, hnew⟩
  · rw [hsame]
    exact h
  · rw [hnew]
    refine ⟨h.count_succ m, h.linked.append ?_⟩
    cases links with
    | true => exact List.Sublist.refl [m]
    | false => exact List.nil_sublist [m]

theorem binderDied (h : Listed s) {m : M} (hm : m ∈ s.recipients) :
    Listed (s.binderDied m).1 where
  count := by
    have hmem := h.linked.subset hm
    have hpos := List.length_pos_of_mem hmem
    have hlen := List.length_erase_of_mem hmem
    have hcount := h.count
    dsimp only [VRAdminService.binderDied]
    omega
  linked := h.linked.erase m

theorem step (h : Listed s) {log : List (ServiceEvent M)} {i : ServiceInput M}
    (hi : Linked s log i) : Listed (adminService.step s i).1 := by
  cases i with
  | registerMonitor monitor links => exact h.registerMonitor monitor links
  | binderDied m => exact h.binderDied hi
  | activityEnter => exact h
  | activityLeave => exact h

end Listed

namespace Stranded

variable {m : M} {s : VRAdminService M}

theorem failed (h : Listed s) (hm : m ∉ s.mCbs) :
    Stranded m (s.registerMonitor (some m) false).1 where
  toListed := h.registerMonitor (some m) false
  kept := by
    rw [VRAdminService.registerMonitor_failed hm]
    exact List.mem_append_right _ (List.mem_singleton_self m)
  unlinked := by
    rw [VRAdminService.registerMonitor_failed hm]
    exact fun hlinked => hm (h.linked.subset hlinked)

/-- A second registration of the monitor finds it in the list and links nothing. -/
theorem registerMonitor (h : Stranded m s) (monitor : Option M) (links : Bool) :
    Stranded m (s.registerMonitor monitor links).1 := by
  have hlisted := h.toListed.registerMonitor monitor links
  rcases s.registerMonitor_cases monitor links with hsame | ⟨c, hc, hnew⟩
  · rw [hsame]
    exact h
  · rw [hnew] at hlisted ⊢
    refine ⟨hlisted, List.mem_append_left _ h.kept, fun hlinked => ?_⟩
    rcases List.mem_append.mp hlinked with hold | hfresh
    · exact h.unlinked hold
    · cases links with
      | true => exact hc (List.mem_singleton.mp hfresh ▸ h.kept)
      | false => exact nomatch hfresh

theorem binderDied (h : Stranded m s) {c : M} (hc : c ∈ s.recipients) :
    Stranded m (s.binderDied c).1 where
  toListed := h.toListed.binderDied hc
  kept := by
    have hne : m ≠ c := by
      rintro rfl
      exact h.unlinked hc
    exact (List.mem_erase_of_ne hne).mpr h.kept
  unlinked := fun hlinked => h.unlinked (List.mem_of_mem_erase hlinked)

theorem step (h : Stranded m s) {log : List (ServiceEvent M)} {i : ServiceInput M}
    (hi : Linked s log i) : Stranded m (adminService.step s i).1 := by
  cases i with
  | registerMonitor monitor links => exact h.registerMonitor monitor links
  | binderDied c => exact h.binderDied hi
  | activityEnter => exact h
  | activityLeave => exact h

/-- No death restores the settings: the count stays above zero. -/
theorem binderDied_events (h : Stranded m s) {c : M} (hc : c ∈ s.recipients) :
    (s.binderDied c).2 = [] := by
  have hpos := (h.binderDied hc).count_pos
  dsimp only [VRAdminService.binderDied] at hpos
  have hnonzero : ¬ s.mClientCount - 1 = 0 := by omega
  exact if_neg hnonzero

end Stranded

theorem reach_listed {s : VRAdminService M} {log : List (ServiceEvent M)}
    (h : adminService.Reach Linked VRAdminService.start s log) : Listed s :=
  h.invariant (P := fun s _ => Listed s) Listed.start fun _ _ _ hs hi => hs.step hi

theorem reach_stranded {m : M} {s t : VRAdminService M} {log : List (ServiceEvent M)}
    (hs : Stranded m s) (h : adminService.Reach Linked s t log) : Stranded m t :=
  h.invariant (P := fun t _ => Stranded m t) hs fun _ _ _ ht hi => ht.step hi

/-- A registration whose `linkToDeath` throws throws as well, but its monitor is counted
and in `mCbs` from then on: in no later state is the count zero, and no later death
restores the settings. -/
theorem failed_monitor_counted {s : VRAdminService M} {log : List (ServiceEvent M)}
    (h : adminService.Reach Linked VRAdminService.start s log) {m : M} (hm : m ∉ s.mCbs) :
    let r := s.registerMonitor (some m) false
    r.2 = [.remoteException] ∧ r.1.mClientCount ≠ s.mClientCount ∧ r.1.mCbs ≠ s.mCbs ∧
    ∀ t later, adminService.Reach Linked r.1 t later →
      t.mClientCount ≠ 0 ∧
        ∀ c ∈ t.recipients, (t.binderDied c).1.mClientCount ≠ 0 ∧ (t.binderDied c).2 = [] := by
  intro r
  have hstranded : Stranded m r.1 := Stranded.failed (reach_listed h) hm
  have hr : r = (⟨s.mClientCount + 1, s.mCbs ++ [m], s.recipients⟩, [.remoteException]) :=
    VRAdminService.registerMonitor_failed hm
  refine ⟨by rw [hr], ?_, ?_, ?_⟩
  · rw [hr]
    dsimp only
    omega
  · rw [hr]
    exact fun heq => hm (heq ▸ List.mem_append_right _ (List.mem_singleton_self m))
  · intro t later hlater
    have ht := reach_stranded hstranded hlater
    refine ⟨by have hpos := ht.count_pos; omega, fun c hc => ⟨?_, ht.binderDied_events hc⟩⟩
    have hpos := (ht.binderDied hc).count_pos
    omega

theorem failed_monitor_counted_one :
    let s := ((VRAdminService.start : VRAdminService Nat).registerMonitor (some 1) false).1
    let t := (adminService.run s [.registerMonitor (some 2) true]).1
    (t.binderDied 2).1.mClientCount ≠ 0 ∧ (t.binderDied 2).2 = [] := by
  intro s t
  have hlater : adminService.Reach Linked s t ([] ++ _) := Machine.Reach.start.run (by decide)
  obtain ⟨-, -, -, hrun⟩ := failed_monitor_counted
    (Machine.Reach.start : (adminService (M := Nat)).Reach Linked VRAdminService.start _ _)
    (List.not_mem_nil (a := 1))
  exact (hrun t _ hlater).2 2 (by decide)

/-- The first registration fails and is counted; the next client is linked and dies, and
its death, the last one, restores nothing. -/
theorem failed_monitor_counted_fails :
    (¬ ∀ (s : VRAdminService Nat) (log : List (ServiceEvent Nat)) (m : Nat),
      adminService.Reach Linked VRAdminService.start s log → m ∉ s.mCbs →
      (s.registerMonitor (some m) false).2 = [.remoteException] ∧
        (s.registerMonitor (some m) false).1.mClientCount = s.mClientCount ∧
        (s.registerMonitor (some m) false).1.mCbs = s.mCbs) ∧
    ¬ ∀ (s : VRAdminService Nat) (log : List (ServiceEvent Nat)) (m : Nat),
      adminService.Reach Linked VRAdminService.start s log → m ∉ s.mCbs →
      ∀ t later c, adminService.Reach Linked (s.registerMonitor (some m) false).1 t later →
        t.recipients = [c] →
        (t.binderDied c).1.mClientCount = 0 ∧ (t.binderDied c).2 = restore Nat := by
  refine ⟨fun hall => ?_, fun hall => ?_⟩
  · exact absurd (hall _ _ 1 .start List.not_mem_nil).2.1 (by decide)
  · let s := ((VRAdminService.start : VRAdminService Nat).registerMonitor (some 1) false).1
    let t := (adminService.run s [.registerMonitor (some 2) true]).1
    have hlater : adminService.Reach Linked s t ([] ++ _) := Machine.Reach.start.run (by decide)
    exact absurd (hall _ _ 1 .start List.not_mem_nil t _ 2 hlater (by decide)).1 (by decide)

end Stub

end VRAdmin
