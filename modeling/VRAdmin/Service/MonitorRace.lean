import VRAdmin.Service.FailedMonitor

/-! # Registrations and deaths at once

Binder threads run `registerMonitor` and `binderDied` at the same time. A registration
is inside `synchronized (this)`, so there is one at most; `binderDied` takes no lock, and
`mClientCount--` and `mClientCount++` read the field and write it back. Here every
access to a field is a step of its own, in the order of one interleaving; a call of the
list is one access. The list stays right. The count is off by what the writes have
undone, and by that much deaths restore too early or never.
-/

namespace VRAdmin

open Foundation

/-- Where the registration is. -/
inductive Registering (M : Type)
  | entered (monitor : M)
  /-- `mCbs` does not contain it. -/
  | absent (monitor : M)
  | countRead (monitor : M) (count : Int)
  | counted (monitor : M)
  | added (monitor : M)
deriving DecidableEq

/-- Where a `binderDied` is. -/
inductive Dying (M : Type)
  | entered (monitor : M)
  | removed
  | countRead (count : Int)
  | counted
deriving DecidableEq

structure MonitorRace (M : Type) where
  stub : VRAdminService M
  registering : Option (Registering M)
  dying : List (Dying M)

/-- A call that begins, or the next step of one under way. -/
inductive RaceInput (M : Type)
  | registerMonitor (monitor : Option M)
  | registration (links : Bool)
  | binderDied (monitor : M)
  | death (k : Nat)
deriving DecidableEq

/-- A write of the count carries what it replaces and what its thread had read. -/
inductive RaceEvent (M : Type)
  | countWritten (found read : Int)
  | service (e : ServiceEvent M)
deriving DecidableEq

section Model

variable {M : Type} [DecidableEq M]

namespace MonitorRace

def start : MonitorRace M := ⟨VRAdminService.start, none, []⟩

def setCount (s : MonitorRace M) (count : Int) : MonitorRace M :=
  { s with stub := { s.stub with mClientCount := count } }

def setCbs (s : MonitorRace M) (cbs : List M) : MonitorRace M :=
  { s with stub := { s.stub with mCbs := cbs } }

def setRecipients (s : MonitorRace M) (recipients : List M) : MonitorRace M :=
  { s with stub := { s.stub with recipients := recipients } }

def registration (s : MonitorRace M) (links : Bool) : MonitorRace M × List (RaceEvent M) :=
  match s.registering with
  | none => (s, [])
  | some (.entered m) =>
      ({ s with registering := if s.stub.mCbs.contains m then none else some (.absent m) }, [])
  | some (.absent m) => ({ s with registering := some (.countRead m s.stub.mClientCount) }, [])
  | some (.countRead m count) =>
      ({ s.setCount (count + 1) with registering := some (.counted m) },
        [.countWritten s.stub.mClientCount count])
  | some (.counted m) =>
      ({ s.setCbs (s.stub.mCbs ++ [m]) with registering := some (.added m) }, [])
  | some (.added m) =>
      if links then
        ({ s.setRecipients (s.stub.recipients ++ [m]) with registering := none }, [])
      else ({ s with registering := none }, [.service .remoteException])

def death (s : MonitorRace M) (k : Nat) : MonitorRace M × List (RaceEvent M) :=
  match s.dying[k]? with
  | none => (s, [])
  | some (.entered m) =>
      ({ s.setCbs (s.stub.mCbs.erase m) with dying := s.dying.set k .removed }, [])
  | some .removed => ({ s with dying := s.dying.set k (.countRead s.stub.mClientCount) }, [])
  | some (.countRead count) =>
      ({ s.setCount (count - 1) with dying := s.dying.set k .counted },
        [.countWritten s.stub.mClientCount count])
  | some .counted =>
      ({ s with dying := s.dying.eraseIdx k },
        if s.stub.mClientCount = 0 then (restore M).map .service else [])

def step (s : MonitorRace M) : RaceInput M → MonitorRace M × List (RaceEvent M)
  | .registerMonitor none => (s, [])
  | .registerMonitor (some m) =>
      -- a thread that finds the lock taken waits
      if s.registering.isSome then (s, []) else ({ s with registering := some (.entered m) }, [])
  | .registration links => s.registration links
  | .binderDied m =>
      ({ s.setRecipients (s.stub.recipients.erase m) with dying := s.dying ++ [.entered m] }, [])
  | .death k => s.death k

end MonitorRace

def monitorRace : Machine (MonitorRace M) (RaceInput M) (RaceEvent M) := ⟨MonitorRace.step⟩

/-- Only a linked recipient hears of a death. -/
def RaceInput.Possible (s : MonitorRace M) (_log : List (RaceEvent M)) : RaceInput M → Prop
  | .binderDied m => m ∈ s.stub.recipients
  | _ => True

instance (s : MonitorRace M) (log : List (RaceEvent M)) :
    (i : RaceInput M) → Decidable (i.Possible s log)
  | .binderDied m => inferInstanceAs (Decidable (m ∈ s.stub.recipients))
  | .registerMonitor _ | .registration _ | .death _ => isTrue trivial

/-! ## What the writes undo -/

/-- The change of the count that a write undoes: what others made of it since the read. -/
def RaceEvent.undone : RaceEvent M → Int
  | .countWritten found read => found - read
  | .service _ => 0

def undone (log : List (RaceEvent M)) : Int := (log.map RaceEvent.undone).sum

/-- Out of the list and not yet out of the count. -/
def Dying.owes : Dying M → Bool
  | .removed => true
  | .countRead _ => true
  | _ => false

/-- In the count and not yet in the list. -/
def Registering.owes : Registering M → Bool
  | .counted _ => true
  | _ => false

/-- What the count is ahead of the list by calls under way. -/
def MonitorRace.owed (s : MonitorRace M) : Nat :=
  s.registering.toList.countP Registering.owes + s.dying.countP Dying.owes

def Dying.monitor : Dying M → Option M
  | .entered m => some m
  | _ => none

/-- The monitor that was not in the list and is still to be added. -/
def Registering.adds : Registering M → Option M
  | .absent m => some m
  | .countRead m _ => some m
  | .counted m => some m
  | _ => none

def Registering.links : Registering M → Option M
  | .added m => some m
  | _ => none

/-- The monitors that a death is still to take out of the list. -/
def MonitorRace.watched (s : MonitorRace M) : List M :=
  s.stub.recipients ++ s.dying.filterMap Dying.monitor

/-- The count is that of the list but for the calls under way and what writes have
undone; the list has no monitor twice and all those that will hear of a death. -/
structure Raced (s : MonitorRace M) (log : List (RaceEvent M)) : Prop where
  account : s.stub.mClientCount + undone log = s.stub.mCbs.length + s.owed
  nodup : s.stub.mCbs.Nodup
  once : s.watched.Nodup
  kept : ∀ m ∈ s.watched, m ∈ s.stub.mCbs
  adds : ∀ m, s.registering.bind Registering.adds = some m → m ∉ s.stub.mCbs
  links : ∀ m, s.registering.bind Registering.links = some m →
    m ∈ s.stub.mCbs ∧ m ∉ s.watched

omit [DecidableEq M] in
theorem undone_append (log events : List (RaceEvent M)) :
    undone (log ++ events) = undone log + undone events := by
  rw [undone, List.map_append, List.sum_append]
  rfl

omit [DecidableEq M] in
theorem undone_service (events : List (ServiceEvent M)) :
    undone (events.map RaceEvent.service) = 0 := by
  induction events with
  | nil => rfl
  | cons e rest ih => simpa [undone, RaceEvent.undone] using ih

theorem split_of_getElem? {α : Type} {xs : List α} {k : Nat} {x : α} (h : xs[k]? = some x) :
    ∃ front back, xs = front ++ x :: back ∧ (∀ y, xs.set k y = front ++ y :: back) ∧
      xs.eraseIdx k = front ++ back := by
  obtain ⟨hlt, hx⟩ := List.getElem?_eq_some_iff.mp h
  refine ⟨xs.take k, xs.drop (k + 1), ?_, fun y => ?_, List.eraseIdx_eq_take_drop_succ xs k⟩
  · rw [← hx, List.cons_getElem_drop_succ, List.take_append_drop]
  · rw [List.set_eq_take_append_cons_drop, if_pos hlt]

namespace Raced

variable {s : MonitorRace M} {log : List (RaceEvent M)}

omit [DecidableEq M] in
theorem start : Raced (MonitorRace.start : MonitorRace M) [] :=
  ⟨rfl, List.nodup_nil, List.nodup_nil, nofun, nofun, nofun⟩

omit [DecidableEq M] in
theorem silent (h : Raced s log) {events : List (RaceEvent M)} (hevents : undone events = 0) :
    Raced s (log ++ events) :=
  ⟨by rw [undone_append, hevents, Int.add_zero]; exact h.account, h.nodup, h.once, h.kept,
    h.adds, h.links⟩

omit [DecidableEq M] in
/-- A step of the registration that changes neither the count nor the list. -/
theorem moves (h : Raced s log) {r : Option (Registering M)}
    (howes : r.toList.countP Registering.owes = s.registering.toList.countP Registering.owes)
    (hadds : ∀ m, r.bind Registering.adds = some m → m ∉ s.stub.mCbs)
    (hlinks : ∀ m, r.bind Registering.links = some m → m ∈ s.stub.mCbs ∧ m ∉ s.watched) :
    Raced { s with registering := r } log where
  account := by
    rw [h.account, MonitorRace.owed, MonitorRace.owed, howes]
  nodup := h.nodup
  once := h.once
  kept := h.kept
  adds := hadds
  links := hlinks

theorem registration (h : Raced s log) (links : Bool) :
    Raced (s.registration links).1 (log ++ (s.registration links).2) := by
  have hadds := h.adds
  have hlinks := h.links
  have haccount := h.account
  unfold MonitorRace.registration
  unfold MonitorRace.owed at haccount
  cases hr : s.registering with
  | none => exact h.silent rfl
  | some r =>
      rw [hr] at hadds hlinks haccount
      cases r with
      | entered m =>
          dsimp only
          cases hcontains : s.stub.mCbs.contains m with
          | true =>
              have hmoved : Raced { s with registering := none } log :=
                h.moves (by rw [hr]; rfl) (by simp) (by simp)
              exact hmoved.silent rfl
          | false =>
              have hmoved : Raced { s with registering := some (.absent m) } log := by
                refine h.moves (by rw [hr]; rfl) ?_ (by simp [Registering.links])
                rintro c hc hmem
                obtain rfl : m = c := Option.some.inj hc
                rw [List.contains_iff_mem.mpr hmem] at hcontains
                exact absurd hcontains (by decide)
              exact hmoved.silent rfl
      | absent m =>
          have hmoved : Raced { s with registering := some (.countRead m s.stub.mClientCount) } log :=
            h.moves (by rw [hr]; rfl) hadds (by simp [Registering.links])
          exact hmoved.silent rfl
      | countRead m read =>
          refine ⟨?_, h.nodup, h.once, h.kept, hadds, by simp [Registering.links]⟩
          rw [undone_append]
          simp [MonitorRace.owed, MonitorRace.setCount, undone, RaceEvent.undone,
            Registering.owes] at haccount ⊢
          omega
      | counted m =>
          have hm : m ∉ s.stub.mCbs := hadds m rfl
          have hcounted : Raced ({ s.setCbs (s.stub.mCbs ++ [m]) with registering := some (.added m) })
              log := by
            refine ⟨?_, ?_, h.once, fun c hc => List.mem_append_left _ (h.kept c hc),
              by simp [Registering.adds], ?_⟩
            · simp [MonitorRace.owed, MonitorRace.setCbs, Registering.owes] at haccount ⊢
              omega
            · exact List.nodup_append_comm.mp (List.nodup_cons.mpr ⟨hm, h.nodup⟩)
            · rintro c hc
              obtain rfl : m = c := Option.some.inj hc
              exact ⟨List.mem_append_right _ (List.mem_singleton_self m), fun hw => hm (h.kept m hw)⟩
          exact hcounted.silent rfl
      | added m =>
          obtain ⟨hm, hwatched⟩ := hlinks m rfl
          cases links with
          | false =>
              have hmoved : Raced { s with registering := none } log :=
                h.moves (by rw [hr]; rfl) (by simp) (by simp)
              exact hmoved.silent rfl
          | true =>
              have hlinked : Raced
                  { s.setRecipients (s.stub.recipients ++ [m]) with registering := none } log := by
                have hperm : (s.stub.recipients ++ [m] ++ s.dying.filterMap Dying.monitor).Perm
                    (m :: s.watched) := by
                  rw [List.append_assoc]
                  exact List.perm_middle
                refine ⟨haccount, h.nodup, ?_, fun c hc => ?_, by simp, by simp⟩
                · exact hperm.nodup_iff.mpr (List.nodup_cons.mpr ⟨hwatched, h.once⟩)
                · rcases List.mem_cons.mp (hperm.mem_iff.mp hc) with rfl | hold
                  · exact hm
                  · exact h.kept c hold
              exact hlinked.silent rfl

omit [DecidableEq M] in
theorem counts (h : Raced s log) (count : Int) (after : List (Dying M))
    {front back : List (Dying M)} {d : Dying M} {events : List (RaceEvent M)}
    (hdying : s.dying = front ++ d :: back) (hmonitor : d.monitor = none)
    (hafter : after.filterMap Dying.monitor = [])
    (hcount : count + undone events + (if d.owes then 1 else 0) =
      s.stub.mClientCount + after.countP Dying.owes) :
    Raced { s.setCount count with dying := front ++ (after ++ back) } (log ++ events) := by
  have hwatched : ({ s.setCount count with dying := front ++ (after ++ back) } :
      MonitorRace M).watched = s.watched := by
    simp [MonitorRace.watched, MonitorRace.setCount, hdying, hmonitor, hafter]
  have haccount := h.account
  refine ⟨?_, h.nodup, hwatched ▸ h.once, hwatched ▸ h.kept, h.adds, hwatched ▸ h.links⟩
  simp only [MonitorRace.owed, MonitorRace.setCount, undone_append, hdying, List.countP_append,
    List.countP_cons, Int.natCast_add] at haccount ⊢
  split at haccount <;> simp_all <;> omega

theorem removes (h : Raced s log) {front back : List (Dying M)} {m : M}
    (hdying : s.dying = front ++ .entered m :: back) :
    Raced { s.setCbs (s.stub.mCbs.erase m) with dying := front ++ .removed :: back } log := by
  have hperm : s.watched.Perm (m ::
      (s.stub.recipients ++ (front ++ Dying.removed :: back).filterMap Dying.monitor)) := by
    rw [MonitorRace.watched, hdying]
    simp only [List.filterMap_append, List.filterMap_cons, Dying.monitor, ← List.append_assoc]
    exact List.perm_middle
  obtain ⟨hgone, honce⟩ := List.nodup_cons.mp (hperm.nodup_iff.mp h.once)
  have hmem : m ∈ s.stub.mCbs := h.kept m (hperm.mem_iff.mpr List.mem_cons_self)
  have hstays (c : M) (hc : c ∈ s.stub.mCbs) (hne : c ≠ m) : c ∈ s.stub.mCbs.erase m :=
    (List.mem_erase_of_ne hne).mpr hc
  have hlen := List.length_erase_of_mem hmem
  have hpos := List.length_pos_of_mem hmem
  have haccount := h.account
  refine ⟨?_, h.nodup.erase m, honce, fun c hc => ?_, fun c hc hin => ?_, fun c hc => ?_⟩
  · simp only [MonitorRace.owed, MonitorRace.setCbs, hdying, List.countP_append,
      List.countP_cons, Dying.owes, Int.natCast_add, hlen] at haccount ⊢
    simp at haccount ⊢
    omega
  · apply hstays c (h.kept c (hperm.mem_iff.mpr (List.mem_cons_of_mem m hc)))
    rintro rfl
    exact hgone hc
  · exact h.adds c hc (List.mem_of_mem_erase hin)
  · obtain ⟨hin, hnot⟩ := h.links c hc
    rw [hperm.mem_iff, List.mem_cons, not_or] at hnot
    exact ⟨hstays c hin hnot.1, hnot.2⟩

theorem death (h : Raced s log) (k : Nat) : Raced (s.death k).1 (log ++ (s.death k).2) := by
  unfold MonitorRace.death
  cases hd : s.dying[k]? with
  | none => exact h.silent rfl
  | some d =>
      obtain ⟨front, back, hdying, hset, herase⟩ := split_of_getElem? hd
      simp only [hset, herase]
      cases d with
      | entered m => exact (h.removes hdying).silent rfl
      | removed =>
          dsimp only
          apply h.counts s.stub.mClientCount [.countRead s.stub.mClientCount] hdying rfl rfl
          simp [Dying.owes, undone]
      | countRead read =>
          dsimp only
          apply h.counts (read - 1) [.counted] hdying rfl rfl
          simp [Dying.owes, undone, RaceEvent.undone]
      | counted =>
          dsimp only
          apply h.counts s.stub.mClientCount [] hdying rfl rfl
          have hnone : undone (if s.stub.mClientCount = 0 then (restore M).map RaceEvent.service
              else []) = 0 := by
            split
            · exact undone_service (restore M)
            · rfl
          simp [hnone, Dying.owes]

theorem binderDied (h : Raced s log) {m : M} (hm : m ∈ s.stub.recipients) :
    Raced { s.setRecipients (s.stub.recipients.erase m) with
      dying := s.dying ++ [.entered m] } log := by
  have hperm : (s.stub.recipients.erase m ++
      (s.dying ++ [Dying.entered m]).filterMap Dying.monitor).Perm s.watched := by
    rw [List.filterMap_append, ← List.append_assoc]
    exact List.perm_append_comm.trans ((List.perm_cons_erase hm).symm.append_right _)
  have haccount := h.account
  refine ⟨?_, h.nodup, hperm.nodup_iff.mpr h.once, fun c hc => h.kept c (hperm.mem_iff.mp hc),
    h.adds, fun c hc => ?_⟩
  · simpa [MonitorRace.owed, MonitorRace.setRecipients, Dying.owes] using haccount
  · obtain ⟨hin, hnot⟩ := h.links c hc
    exact ⟨hin, fun hc => hnot (hperm.mem_iff.mp hc)⟩

theorem step (h : Raced s log) {i : RaceInput M} (hi : i.Possible s log) :
    Raced (monitorRace.step s i).1 (log ++ (monitorRace.step s i).2) := by
  cases i with
  | registerMonitor monitor =>
      cases monitor with
      | none => exact h.silent rfl
      | some m =>
          cases hr : s.registering with
          | some r =>
              have hwaits : monitorRace.step s (.registerMonitor (some m)) = (s, []) := by
                simp [monitorRace, MonitorRace.step, hr]
              rw [hwaits]
              exact h.silent rfl
          | none =>
              have henters : monitorRace.step s (.registerMonitor (some m)) =
                  ({ s with registering := some (.entered m) }, []) := by
                simp [monitorRace, MonitorRace.step, hr]
              rw [henters]
              have hmoved : Raced { s with registering := some (.entered m) } log :=
                h.moves (by rw [hr]; rfl) (by simp [Registering.adds]) (by simp [Registering.links])
              exact hmoved.silent rfl
  | registration links => exact h.registration links
  | binderDied m => exact (h.binderDied hi).silent rfl
  | death k => exact h.death k

end Raced

theorem reach_raced {s : MonitorRace M} {log : List (RaceEvent M)}
    (h : monitorRace.Reach RaceInput.Possible MonitorRace.start s log) : Raced s log :=
  h.invariant Raced.start fun _ _ _ hs hi => hs.step hi

/-! ## Calls that run alone -/

/-- A call of the stub from its beginning to its end. -/
def alone : ServiceInput M → List (RaceInput M)
  | .registerMonitor monitor links =>
      .registerMonitor monitor :: List.replicate 5 (.registration links)
  | .binderDied m => .binderDied m :: List.replicate 4 (.death 0)
  | _ => []

def serviceEvents (log : List (RaceEvent M)) : List (ServiceEvent M) :=
  log.filterMap fun e =>
    match e with
    | .service e => some e
    | .countWritten _ _ => none

theorem registration_idle (stub : VRAdminService M) (links : Bool) (n : Nat) :
    (monitorRace.run ⟨stub, none, []⟩ (List.replicate n (.registration links))) =
      (⟨stub, none, []⟩, []) := by
  induction n with
  | zero => rfl
  | succ n ih =>
      rw [List.replicate_succ, Machine.run_cons]
      show ((monitorRace.run ⟨stub, none, []⟩ _).1, [] ++ (monitorRace.run ⟨stub, none, []⟩ _).2) = _
      rw [ih]
      rfl

theorem run_binderDied (stub : VRAdminService M) (m : M) :
    monitorRace.run ⟨stub, none, []⟩ (alone (.binderDied m)) =
      (⟨(stub.binderDied m).1, none, []⟩, .countWritten stub.mClientCount stub.mClientCount ::
        (stub.binderDied m).2.map .service) := by
  have hrun : monitorRace.run ⟨stub, none, []⟩ (alone (.binderDied m)) =
      (⟨(stub.binderDied m).1, none, []⟩, .countWritten stub.mClientCount stub.mClientCount ::
        if stub.mClientCount - 1 = 0 then (restore M).map .service else []) := by
    show (_, _ ++ (_ ++ (_ ++ (_ ++ (_ ++ []))))) = _
    rw [List.append_nil]
    rfl
  rw [hrun]
  show (_, RaceEvent.countWritten _ _ :: _) = (_, RaceEvent.countWritten _ _ ::
    (if stub.mClientCount - 1 = 0 then restore M else []).map .service)
  split <;> rfl

theorem run_alone (stub : VRAdminService M) (i : ServiceInput M) :
    (monitorRace.run ⟨stub, none, []⟩ (alone i)).1 =
      ⟨(adminService.step stub i).1, none, []⟩ := by
  cases i with
  | registerMonitor monitor links =>
      rw [alone, Machine.run_cons]
      cases monitor with
      | none => exact congrArg Prod.fst (registration_idle stub links 5)
      | some m =>
          show (monitorRace.run ⟨stub, some (.entered m), []⟩
            (.registration links :: List.replicate 4 (.registration links))).1 = _
          rw [Machine.run_cons, step_registerMonitor]
          by_cases hm : m ∈ stub.mCbs
          · have hin : stub.mCbs.contains m = true := List.contains_iff_mem.mpr hm
            have hleaves : monitorRace.step ⟨stub, some (.entered m), []⟩ (.registration links) =
                (⟨stub, none, []⟩, []) := by
              simp [monitorRace, MonitorRace.step, MonitorRace.registration, hm]
            rw [hleaves, registration_idle, VRAdminService.registerMonitor_known hm]
          · have hstays : monitorRace.step ⟨stub, some (.entered m), []⟩ (.registration links) =
                (⟨stub, some (.absent m), []⟩, []) := by
              simp [monitorRace, MonitorRace.step, MonitorRace.registration, hm]
            rw [hstays]
            cases links with
            | true => rw [VRAdminService.registerMonitor_linked hm]; rfl
            | false => rw [VRAdminService.registerMonitor_failed hm]; rfl
  | binderDied m => rw [run_binderDied]; rfl
  | activityEnter => rfl
  | activityLeave => rfl

theorem run_serial (stub : VRAdminService M) (is : List (ServiceInput M)) :
    (monitorRace.run ⟨stub, none, []⟩ (is.flatMap alone)).1 =
      ⟨(adminService.run stub is).1, none, []⟩ := by
  induction is generalizing stub with
  | nil => rfl
  | cons i rest ih =>
      rw [List.flatMap_cons, Machine.run_append, run_alone]
      exact ih (adminService.step stub i).1

/-! ## Behind a race -/

/-- The count of the stub is off by `k`. -/
structure OffBy (k : Int) (s : VRAdminService M) : Prop where
  count : s.mClientCount + k = s.mCbs.length
  nodup : s.mCbs.Nodup
  once : s.recipients.Nodup
  kept : ∀ m ∈ s.recipients, m ∈ s.mCbs

namespace OffBy

variable {k : Int} {s : VRAdminService M}

theorem step (h : OffBy k s) {log : List (ServiceEvent M)} {i : ServiceInput M}
    (hi : Linked s log i) : OffBy k (adminService.step s i).1 := by
  cases i with
  | registerMonitor monitor links =>
      rw [step_registerMonitor]
      rcases s.registerMonitor_cases monitor links with hsame | ⟨m, hm, hnew⟩
      · rw [hsame]
        exact h
      · rw [hnew]
        have hcount := h.count
        have hfresh : m ∉ s.recipients := fun hlinked => hm (h.kept m hlinked)
        refine ⟨?_, List.nodup_append_comm.mp (List.nodup_cons.mpr ⟨hm, h.nodup⟩), ?_, ?_⟩
        · simp only [List.length_append, List.length_singleton]
          omega
        · cases links with
          | true => exact List.nodup_append_comm.mp (List.nodup_cons.mpr ⟨hfresh, h.once⟩)
          | false => simpa using h.once
        · intro c hc
          rcases List.mem_append.mp hc with hold | hc
          · exact List.mem_append_left _ (h.kept c hold)
          · apply List.mem_append_right _
            cases links with
            | true => exact hc
            | false => exact absurd hc List.not_mem_nil
  | binderDied m =>
      have hm : m ∈ s.recipients := hi
      have hmem := h.kept m hm
      have hlen := List.length_erase_of_mem hmem
      have hpos := List.length_pos_of_mem hmem
      have hcount := h.count
      refine ⟨?_, h.nodup.erase m, h.once.erase m, fun c hc => ?_⟩
      · show s.mClientCount - 1 + k = ((s.mCbs.erase m).length : Int)
        omega
      · obtain ⟨hne, hold⟩ := (h.once.mem_erase_iff).mp hc
        exact (List.mem_erase_of_ne hne).mpr (h.kept c hold)
  | activityEnter => exact h
  | activityLeave => exact h

theorem run (h : OffBy k s) {log : List (ServiceEvent M)} {is : List (ServiceInput M)}
    (his : adminService.Admits Linked s log is) : OffBy k (adminService.run s is).1 := by
  induction is generalizing s log with
  | nil => exact h
  | cons i rest ih => exact ih (h.step his.1) his.2

/-- A death restores when it leaves as many monitors as the count is short of. -/
theorem binderDied_events (h : OffBy k s) {m : M} (hm : m ∈ s.recipients) :
    (s.binderDied m).2 = if ((s.mCbs.erase m).length : Int) = k then restore M else [] := by
  have hmem := h.kept m hm
  have hlen := List.length_erase_of_mem hmem
  have hpos := List.length_pos_of_mem hmem
  have hcount := h.count
  have hzero : s.mClientCount - 1 = 0 ↔ ((s.mCbs.erase m).length : Int) = k := by omega
  simp only [VRAdminService.binderDied, hzero]

end OffBy

theorem serviceEvents_binderDied (stub : VRAdminService M) (m : M) :
    serviceEvents (monitorRace.run ⟨stub, none, []⟩ (alone (.binderDied m))).2 =
      (stub.binderDied m).2 := by
  rw [run_binderDied]
  show ((stub.binderDied m).2.map RaceEvent.service).filterMap _ = _
  rw [List.filterMap_map]
  exact List.filterMap_some

/-- In every interleaving of registrations and deaths the list has no monitor twice and
all that are linked, and the count, but for calls under way, is the list's length less
what writes have undone of each other. From a moment without a call, while all calls
run alone, it stays off by just that much, and a death restores the settings exactly
when it leaves that many monitors in the list: never, if decrements were undone. -/
theorem monitor_race {s : MonitorRace M} {log : List (RaceEvent M)}
    (h : monitorRace.Reach RaceInput.Possible MonitorRace.start s log) :
    s.stub.mCbs.Nodup ∧ (∀ m ∈ s.stub.recipients, m ∈ s.stub.mCbs) ∧
    s.stub.mClientCount + undone log = s.stub.mCbs.length + s.owed ∧
    (s.registering = none → s.dying = [] →
      ∀ is, adminService.Admits Linked s.stub [] is →
        let t := (monitorRace.run s (is.flatMap alone)).1
        t.stub.mClientCount + undone log = t.stub.mCbs.length ∧
        ∀ m ∈ t.stub.recipients,
          serviceEvents (monitorRace.run t (alone (.binderDied m))).2 =
            if ((t.stub.mCbs.erase m).length : Int) = undone log then restore M else []) := by
  have hraced := reach_raced h
  refine ⟨hraced.nodup, fun m hm => hraced.kept m (List.mem_append_left _ hm), hraced.account, ?_⟩
  intro hregistering hdying is his t
  obtain ⟨stub, registering, dying⟩ := s
  obtain rfl : registering = none := hregistering
  obtain rfl : dying = [] := hdying
  have hoff : OffBy (undone log) stub := by
    refine ⟨by simpa [MonitorRace.owed] using hraced.account, hraced.nodup, ?_, ?_⟩
    · simpa [MonitorRace.watched] using hraced.once
    · exact fun m hm => hraced.kept m (List.mem_append_left _ hm)
  have hlater := hoff.run his
  have ht : t = ⟨(adminService.run stub is).1, none, []⟩ := run_serial stub is
  rw [ht]
  refine ⟨hlater.count, fun m hm => ?_⟩
  rw [serviceEvents_binderDied]
  exact hlater.binderDied_events hm

end Model

/-- Two monitors register, and both die before either death has written the count. -/
def racingDeaths : List (RaceInput Nat) :=
  alone (.registerMonitor (some 1) true) ++ alone (.registerMonitor (some 2) true) ++
    [.binderDied 1, .binderDied 2, .death 0, .death 1, .death 0, .death 1, .death 0, .death 1,
      .death 0, .death 0]

/-- A third monitor that then comes and goes is the last, and its death restores nothing. -/
theorem monitor_race_lost :
    let s := (monitorRace.run MonitorRace.start racingDeaths).1
    let t := (monitorRace.run s (alone (.registerMonitor (some 3) true))).1
    t.stub.mCbs = [3] ∧ serviceEvents (monitorRace.run t (alone (.binderDied 3))).2 = [] := by
  intro s t
  have hreach : monitorRace.Reach RaceInput.Possible MonitorRace.start s
      ([] ++ (monitorRace.run MonitorRace.start racingDeaths).2) :=
    Machine.Reach.start.run (by decide)
  have hrace := (monitor_race hreach).2.2.2 (by decide) (by decide)
    [.registerMonitor (some 3) true] (by decide)
  refine ⟨by decide, (hrace.2 3 (by decide)).trans ?_⟩
  rw [if_neg (by decide)]

end VRAdmin
