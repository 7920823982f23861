import Mathlib.Data.List.Nodup
import Mathlib.Data.List.Perm.Basic
import VRAdmin.Flash.TalkToDfuUtil
import VRAdmin.Foundation.Machine

/-! # Callbacks of VRAdminService

The list `mCallbacks` with the threads that use it: binder threads register and
unregister, talkers broadcast, all of them inside `synchronized (mCallbacks)`. The
list also loses a callback when its death is noticed, at any moment, since a
`RemoteCallbackList` does not take the lock of the service for that. A broadcast runs
over the callbacks that `beginBroadcast` found; a call of a dead one throws and is
skipped.
-/

namespace VRAdmin

open Foundation

/-- A broadcast under way: its thread, which holds the lock, its value, and the
callbacks that it has still to call. -/
structure Broadcast (C T : Type) where
  thread : T
  percent : Int32
  left : List C

structure Callbacks (C T : Type) where
  mCallbacks : List C
  broadcast : Option (Broadcast C T)
  dead : List C

/-- A step of a thread or of a callback's process. The order in which
`getBroadcastItem` gives the callbacks is up to the list. -/
inductive CallbackInput (C T : Type)
  | registerCallback (cb : Option C)
  | unregisterCallback (cb : Option C)
  | beginBroadcast (thread : T) (percent : Int32) (items : List C)
  | onUpgradingUpdate (thread : T)
  | finishBroadcast (thread : T)
  | dies (cb : C)
  | deathNoticed (cb : C)

inductive CallbackEvent (C : Type)
  | registered (cb : C)
  | unregistered (cb : C)
  | begun (percent : Int32)
  | updated (cb : C) (percent : Int32)
  | remoteException (cb : C)
  | finished
deriving DecidableEq

section Model

variable {C T : Type} [DecidableEq C]

section Step

variable [DecidableEq T]

namespace Callbacks

def start : Callbacks C T := ⟨[], none, []⟩

/-- A thread that needs the lock waits while a broadcast holds it. -/
def locked (s : Callbacks C T) (body : Callbacks C T × List (CallbackEvent C)) :
    Callbacks C T × List (CallbackEvent C) :=
  if s.broadcast.isSome then (s, []) else body

/-- `linkToDeath` throws for a dead callback, which is then not added. -/
def register (s : Callbacks C T) (cb : C) : Callbacks C T × List (CallbackEvent C) :=
  if s.dead.contains cb then (s, [])
  else ({ s with mCallbacks := s.mCallbacks.insert cb }, [.registered cb])

def unregister (s : Callbacks C T) (cb : C) : Callbacks C T × List (CallbackEvent C) :=
  ({ s with mCallbacks := s.mCallbacks.erase cb }, [.unregistered cb])

/-- The next turn of the loop in `broadcastFlashProgress`. -/
def onUpgradingUpdate (s : Callbacks C T) (thread : T) : Callbacks C T × List (CallbackEvent C) :=
  match s.broadcast with
  | some ⟨holder, percent, cb :: left⟩ =>
      if holder = thread then
        ({ s with broadcast := some ⟨holder, percent, left⟩ },
          [if s.dead.contains cb then .remoteException cb else .updated cb percent])
      else (s, [])
  | _ => (s, [])

def finishBroadcast (s : Callbacks C T) (thread : T) : Callbacks C T × List (CallbackEvent C) :=
  match s.broadcast with
  | some ⟨holder, _, []⟩ =>
      if holder = thread then ({ s with broadcast := none }, [.finished]) else (s, [])
  | _ => (s, [])

def step (s : Callbacks C T) : CallbackInput C T → Callbacks C T × List (CallbackEvent C)
  | .registerCallback none => (s, [])
  | .registerCallback (some cb) => s.locked (s.register cb)
  | .unregisterCallback none => (s, [])
  | .unregisterCallback (some cb) => s.locked (s.unregister cb)
  | .beginBroadcast thread percent items =>
      s.locked ({ s with broadcast := some ⟨thread, percent, items.reverse⟩ }, [.begun percent])
  | .onUpgradingUpdate thread => s.onUpgradingUpdate thread
  | .finishBroadcast thread => s.finishBroadcast thread
  | .dies cb => ({ s with dead := cb :: s.dead }, [])
  | .deathNoticed cb => s.unregister cb

end Callbacks

def callbackList : Machine (Callbacks C T) (CallbackInput C T) (CallbackEvent C) :=
  ⟨Callbacks.step⟩

end Step

/-- `getBroadcastItem` gives each registered callback once, and only a dead callback's
death is noticed. -/
def CallbackInput.Possible (s : Callbacks C T) (_log : List (CallbackEvent C)) :
    CallbackInput C T → Prop
  | .beginBroadcast _ _ items => items.Perm s.mCallbacks
  | .deathNoticed cb => cb ∈ s.dead
  | _ => True

instance decidablePossible (s : Callbacks C T) (log : List (CallbackEvent C)) :
    (i : CallbackInput C T) → Decidable (i.Possible s log)
  | .beginBroadcast _ _ items => inferInstanceAs (Decidable (items.Perm s.mCallbacks))
  | .deathNoticed cb => inferInstanceAs (Decidable (cb ∈ s.dead))
  | .registerCallback _ => isTrue trivial
  | .unregisterCallback _ => isTrue trivial
  | .onUpgradingUpdate _ => isTrue trivial
  | .finishBroadcast _ => isTrue trivial
  | .dies _ => isTrue trivial

/-! ## What a callback is due -/

/-- Whether the callback is registered, and the values of the broadcasts that have
begun while it was, after one more event. -/
def dueStep (cb : C) (due : Bool × List Int32) : CallbackEvent C → Bool × List Int32
  | .registered c => (due.1 || c = cb, due.2)
  | .unregistered c => (due.1 && c ≠ cb, due.2)
  | .begun percent => (due.1, if due.1 then due.2 ++ [percent] else due.2)
  | _ => due

def dueFrom (cb : C) (log : List (CallbackEvent C)) : Bool × List Int32 :=
  log.foldl (dueStep cb) (false, [])

/-- The values of the broadcasts that began while the callback was registered. -/
def due (cb : C) (log : List (CallbackEvent C)) : List Int32 := (dueFrom cb log).2

def CallbackEvent.updateOf (cb : C) : CallbackEvent C → Option Int32
  | .updated c percent => if c = cb then some percent else none
  | _ => none

/-- The values that the callback was called with. -/
def updates (cb : C) (log : List (CallbackEvent C)) : List Int32 :=
  log.filterMap (CallbackEvent.updateOf cb)

theorem dueFrom_append (cb : C) (log events : List (CallbackEvent C)) :
    dueFrom cb (log ++ events) = events.foldl (dueStep cb) (dueFrom cb log) := List.foldl_append

theorem updates_append (cb : C) (log events : List (CallbackEvent C)) :
    updates cb (log ++ events) = updates cb log ++ updates cb events := List.filterMap_append

/-- What a broadcast under way has still to bring to the callback. -/
def Callbacks.pending (s : Callbacks C T) (cb : C) : List Int32 :=
  match s.broadcast with
  | none => []
  | some b => if cb ∈ b.left then [b.percent] else []

theorem Callbacks.pending_none {s : Callbacks C T} (h : s.broadcast = none) (cb : C) :
    s.pending cb = [] := by
  rw [pending, h]

/-- What holds of one callback: the list knows whether it is registered, and it was
called with all that it is due but for `missed`; if it lives, it has missed only what a
broadcast under way will still bring. -/
structure Served (s : Callbacks C T) (log : List (CallbackEvent C)) (cb : C) : Prop where
  member : (dueFrom cb log).1 = decide (cb ∈ s.mCallbacks)
  missed : ∃ missed, due cb log = updates cb log ++ missed ∧ (cb ∉ s.dead → missed = s.pending cb)

/-- What holds of the list: no callback is in it twice, nor twice in what a broadcast
has left. -/
structure ListSound (s : Callbacks C T) (log : List (CallbackEvent C)) : Prop where
  nodup : s.mCallbacks.Nodup
  left_nodup : ∀ b, s.broadcast = some b → b.left.Nodup
  served : ∀ cb, Served s log cb

namespace Served

variable {s : Callbacks C T} {log : List (CallbackEvent C)} {cb c : C}

/-- A step without an event that keeps the registered callbacks and the broadcast. -/
theorem quiet (h : Served s log cb) {s' : Callbacks C T} (hlist : s'.mCallbacks = s.mCallbacks)
    (hbroadcast : s'.broadcast = s.broadcast) (hdead : cb ∉ s'.dead → cb ∉ s.dead) :
    Served s' (log ++ []) cb := by
  rw [List.append_nil]
  obtain ⟨missed, hdue, hmissed⟩ := h.missed
  refine ⟨h.member.trans (by rw [hlist]), missed, hdue, fun hlive => ?_⟩
  rw [hmissed (hdead hlive), Callbacks.pending, Callbacks.pending, hbroadcast]

theorem registered (h : Served s log cb) :
    Served { s with mCallbacks := s.mCallbacks.insert c } (log ++ [.registered c]) cb := by
  obtain ⟨missed, hdue, hmissed⟩ := h.missed
  refine ⟨?_, missed, ?_, hmissed⟩
  · rw [dueFrom_append, List.foldl_cons, List.foldl_nil, dueStep, h.member]
    simp [Bool.or_comm, eq_comm]
  · rw [due, dueFrom_append, updates_append]
    exact hdue.trans (by simp [updates, CallbackEvent.updateOf])

theorem unregistered (h : Served s log cb) (hnodup : s.mCallbacks.Nodup) :
    Served { s with mCallbacks := s.mCallbacks.erase c } (log ++ [.unregistered c]) cb := by
  obtain ⟨missed, hdue, hmissed⟩ := h.missed
  refine ⟨?_, missed, ?_, hmissed⟩
  · rw [dueFrom_append, List.foldl_cons, List.foldl_nil, dueStep, h.member]
    simp [hnodup.mem_erase_iff, Bool.and_comm, eq_comm]
  · rw [due, dueFrom_append, updates_append]
    exact hdue.trans (by simp [updates, CallbackEvent.updateOf])

theorem begun (h : Served s log cb) (hfree : s.broadcast = none) {thread : T} {percent : Int32}
    {items : List C} (hitems : items.Perm s.mCallbacks) :
    Served { s with broadcast := some ⟨thread, percent, items.reverse⟩ } (log ++ [.begun percent])
      cb := by
  obtain ⟨missed, hdue, hmissed⟩ := h.missed
  have hstep : dueFrom cb (log ++ [.begun percent]) =
      ((dueFrom cb log).1, if cb ∈ s.mCallbacks then due cb log ++ [percent] else due cb log) := by
    rw [dueFrom_append, List.foldl_cons, List.foldl_nil, dueStep, h.member]
    simp [due]
  have hupdates : updates cb (log ++ [.begun percent]) = updates cb log := by
    rw [updates_append]
    simp [updates, CallbackEvent.updateOf]
  refine ⟨by rw [hstep]; exact h.member,
    missed ++ if cb ∈ s.mCallbacks then [percent] else [], ?_, fun hlive => ?_⟩
  · rw [due, hstep, hupdates, ← List.append_assoc, ← hdue]
    split <;> simp
  · rw [hmissed hlive, Callbacks.pending_none hfree, List.nil_append]
    simp [Callbacks.pending, hitems.mem_iff]

/-- The broadcast calls its next callback, or skips a dead one. -/
theorem updated (h : Served s log cb) {thread : T} {percent : Int32} {left : List C}
    (hbroadcast : s.broadcast = some ⟨thread, percent, c :: left⟩) (hnodup : (c :: left).Nodup) :
    Served { s with broadcast := some ⟨thread, percent, left⟩ }
      (log ++ [if s.dead.contains c then .remoteException c else .updated c percent]) cb := by
  obtain ⟨missed, hdue, hmissed⟩ := h.missed
  have hpending : s.pending cb = if cb ∈ c :: left then [percent] else [] := by
    rw [Callbacks.pending, hbroadcast]
  have hsame : dueFrom cb (log ++ [if s.dead.contains c then .remoteException c
      else .updated c percent]) = dueFrom cb log := by
    rw [dueFrom_append, List.foldl_cons, List.foldl_nil]
    split <;> rfl
  refine ⟨by rw [hsame]; exact h.member, ?_⟩
  rw [due, hsame, updates_append]
  by_cases hown : cb = c
  · subst hown
    have hnot : cb ∉ left := (List.nodup_cons.mp hnodup).1
    by_cases hdead : cb ∈ s.dead
    · refine ⟨missed, ?_, fun hlive => (hlive hdead).elim⟩
      rw [if_pos (by simpa using hdead)]
      exact hdue.trans (by simp [updates, CallbackEvent.updateOf])
    · refine ⟨[], ?_, fun _ => by simp [Callbacks.pending, hnot]⟩
      have hcall : missed = [percent] := by
        rw [hmissed hdead, hpending, if_pos List.mem_cons_self]
      rw [if_neg (by simpa using hdead)]
      exact hdue.trans (by simp [updates, CallbackEvent.updateOf, hcall])
  · refine ⟨missed, ?_, fun hlive => ?_⟩
    · have hother : updates cb [if s.dead.contains c then CallbackEvent.remoteException c
          else .updated c percent] = [] := by
        split <;> simp [updates, CallbackEvent.updateOf, Ne.symm hown]
      rw [hother, List.append_nil]
      exact hdue
    · rw [hmissed hlive, hpending]
      simp [Callbacks.pending, hown]

theorem finished (h : Served s log cb) {thread : T} {percent : Int32}
    (hbroadcast : s.broadcast = some ⟨thread, percent, []⟩) :
    Served (T := T) { s with broadcast := none } (log ++ [.finished]) cb := by
  obtain ⟨missed, hdue, hmissed⟩ := h.missed
  refine ⟨?_, missed, ?_, fun hlive => ?_⟩
  · rw [dueFrom_append]
    exact h.member
  · rw [due, dueFrom_append, updates_append]
    exact hdue.trans (by simp [updates, CallbackEvent.updateOf])
  · rw [hmissed hlive, Callbacks.pending, hbroadcast]
    simp [Callbacks.pending]

end Served

/-! ## Every run -/

theorem ListSound.start : ListSound (Callbacks.start : Callbacks C T) [] :=
  ⟨List.nodup_nil, fun _ h => absurd h (by simp [Callbacks.start]),
    fun _ => ⟨rfl, [], rfl, fun _ => rfl⟩⟩

theorem ListSound.unchanged {s : Callbacks C T} {log : List (CallbackEvent C)}
    (h : ListSound s log) : ListSound s (log ++ []) := by
  rwa [List.append_nil]

section Runs

variable [DecidableEq T]

omit [DecidableEq T] in
theorem ListSound.locked {s : Callbacks C T} {log : List (CallbackEvent C)} (h : ListSound s log)
    {body : Callbacks C T × List (CallbackEvent C)}
    (hbody : s.broadcast = none → ListSound body.1 (log ++ body.2)) :
    ListSound (s.locked body).1 (log ++ (s.locked body).2) := by
  unfold Callbacks.locked
  cases hbroadcast : s.broadcast with
  | none => exact hbody hbroadcast
  | some b => exact h.unchanged

theorem ListSound.step {s : Callbacks C T} {log : List (CallbackEvent C)} (h : ListSound s log)
    {i : CallbackInput C T} (hi : i.Possible s log) :
    ListSound (s.step i).1 (log ++ (s.step i).2) := by
  cases i with
  | registerCallback cb =>
      cases cb with
      | none => exact h.unchanged
      | some cb =>
          refine h.locked fun hfree => ?_
          unfold Callbacks.register
          split
          · exact h.unchanged
          · exact ⟨h.nodup.insert, h.left_nodup, fun c => (h.served c).registered⟩
  | unregisterCallback cb =>
      cases cb with
      | none => exact h.unchanged
      | some cb =>
          refine h.locked fun hfree => ?_
          exact ⟨h.nodup.erase cb, h.left_nodup, fun c => (h.served c).unregistered h.nodup⟩
  | beginBroadcast thread percent items =>
      have hitems : items.Perm s.mCallbacks := hi
      refine h.locked fun hfree => ⟨h.nodup, ?_, fun c => (h.served c).begun hfree hitems⟩
      intro b hb
      cases hb
      exact List.nodup_reverse.mpr (hitems.nodup_iff.mpr h.nodup)
  | onUpgradingUpdate thread =>
      show ListSound (s.onUpgradingUpdate thread).1 (log ++ (s.onUpgradingUpdate thread).2)
      unfold Callbacks.onUpgradingUpdate
      split
      · next holder percent cb left hbroadcast =>
          have hnodup := h.left_nodup _ hbroadcast
          split
          · refine ⟨h.nodup, ?_, fun c => (h.served c).updated hbroadcast hnodup⟩
            intro b hb
            cases hb
            exact (List.nodup_cons.mp hnodup).2
          · exact h.unchanged
      · exact h.unchanged
  | finishBroadcast thread =>
      show ListSound (s.finishBroadcast thread).1 (log ++ (s.finishBroadcast thread).2)
      unfold Callbacks.finishBroadcast
      split
      · next holder percent hbroadcast =>
          split
          · exact ⟨h.nodup, fun _ hb => absurd hb (by simp), fun c => (h.served c).finished hbroadcast⟩
          · exact h.unchanged
      · exact h.unchanged
  | dies cb =>
      exact ⟨h.nodup, h.left_nodup, fun c => (h.served c).quiet rfl rfl
        (mt (List.mem_cons_of_mem cb))⟩
  | deathNoticed cb =>
      exact ⟨h.nodup.erase cb, h.left_nodup, fun c => (h.served c).unregistered h.nodup⟩

theorem reach_listSound {s : Callbacks C T} {log : List (CallbackEvent C)}
    (h : callbackList.Reach CallbackInput.Possible Callbacks.start s log) : ListSound s log :=
  h.invariant ListSound.start fun _ _ _ hs hi => hs.step hi

/-- The values of all broadcasts. -/
def begunIn (log : List (CallbackEvent C)) : List Int32 :=
  log.filterMap fun e => match e with
    | .begun percent => some percent
    | _ => none

omit [DecidableEq T] in
/-- While a callback stays registered it is due every broadcast. -/
theorem dueFrom_registered {cb : C} {log : List (CallbackEvent C)}
    (hreg : (dueFrom cb log).1 = true) {events : List (CallbackEvent C)}
    (hstays : .unregistered cb ∉ events) :
    dueFrom cb (log ++ events) = (true, due cb log ++ begunIn events) := by
  rw [dueFrom_append]
  have hstart : dueFrom cb log = (true, due cb log) := Prod.ext hreg rfl
  rw [hstart]
  generalize due cb log = values
  induction events generalizing values with
  | nil => simp [begunIn]
  | cons e rest ih =>
      rw [List.mem_cons, not_or] at hstays
      have hrest := ih hstays.2
      rw [List.foldl_cons]
      cases e with
      | registered c => exact hrest values
      | unregistered c =>
          have hc : c ≠ cb := fun hcb => hstays.1 (by rw [hcb])
          simpa [dueStep, hc, begunIn] using hrest values
      | begun percent => simpa [dueStep, begunIn] using hrest (values ++ [percent])
      | updated c percent => exact hrest values
      | remoteException c => exact hrest values
      | finished => exact hrest values

theorem step_dead (s : Callbacks C T) (i : CallbackInput C T) : s.dead ⊆ (s.step i).1.dead := by
  have hlocked {body : Callbacks C T × List (CallbackEvent C)} (hbody : s.dead ⊆ body.1.dead) :
      s.dead ⊆ (s.locked body).1.dead := by
    unfold Callbacks.locked
    split
    · exact List.Subset.refl _
    · exact hbody
  cases i with
  | registerCallback cb =>
      cases cb with
      | none => exact List.Subset.refl _
      | some cb =>
          apply hlocked
          unfold Callbacks.register
          split <;> exact List.Subset.refl _
  | unregisterCallback cb =>
      cases cb with
      | none => exact List.Subset.refl _
      | some cb => exact hlocked (List.Subset.refl _)
  | beginBroadcast thread percent items => exact hlocked (List.Subset.refl _)
  | onUpgradingUpdate thread =>
      show s.dead ⊆ (s.onUpgradingUpdate thread).1.dead
      unfold Callbacks.onUpgradingUpdate
      split
      · split <;> exact List.Subset.refl _
      · exact List.Subset.refl _
  | finishBroadcast thread =>
      show s.dead ⊆ (s.finishBroadcast thread).1.dead
      unfold Callbacks.finishBroadcast
      split
      · split <;> exact List.Subset.refl _
      · exact List.Subset.refl _
  | dies cb => exact List.subset_cons_self cb s.dead
  | deathNoticed cb => exact List.Subset.refl _

theorem run_dead (s : Callbacks C T) (inputs : List (CallbackInput C T)) :
    s.dead ⊆ (callbackList.run s inputs).1.dead :=
  Machine.run_related (R := fun s _ s' => s.dead ⊆ s'.dead) (fun _ => List.Subset.refl _)
    List.Subset.trans step_dead s inputs

/-- However the threads interleave, a callback is called with the values of the
broadcasts that began while it was registered, in that order: all of them but one under
way if it lives, else a first part. So between two moments without a broadcast all
callbacks that stay registered and live are called with the same values. -/
theorem callbacks_agree {s : Callbacks C T} {log : List (CallbackEvent C)}
    (h : callbackList.Reach CallbackInput.Possible Callbacks.start s log) :
    (∀ cb, updates cb log <+: due cb log ∧
      (cb ∉ s.dead → due cb log = updates cb log ++ s.pending cb)) ∧
    ∀ inputs, callbackList.Admits CallbackInput.Possible s log inputs →
      let r := callbackList.run s inputs
      s.broadcast = none → r.1.broadcast = none →
      ∀ cb ∈ s.mCallbacks, cb ∉ r.1.dead → .unregistered cb ∉ r.2 →
        updates cb r.2 = begunIn r.2 := by
  have hsound := reach_listSound h
  refine ⟨fun cb => ?_, ?_⟩
  · obtain ⟨missed, hdue, hmissed⟩ := (hsound.served cb).missed
    exact ⟨⟨missed, hdue.symm⟩, fun hlive => hmissed hlive ▸ hdue⟩
  · intro inputs hinputs r hbefore hafter cb hcb hlive hstays
    have hserved := (reach_listSound (h.run hinputs)).served cb
    obtain ⟨missed, hdue, hmissed⟩ := (hsound.served cb).missed
    obtain ⟨missed', hdue', hmissed'⟩ := hserved.missed
    have hnone : missed = [] :=
      (hmissed fun hdead => hlive (run_dead s inputs hdead)).trans (s.pending_none hbefore cb)
    have hnone' : missed' = [] := (hmissed' hlive).trans (Callbacks.pending_none hafter cb)
    have hreg : (dueFrom cb log).1 = true := by
      rw [(hsound.served cb).member]
      exact decide_eq_true hcb
    have hall := congrArg Prod.snd (dueFrom_registered hreg hstays)
    rw [hnone', List.append_nil, updates_append] at hdue'
    rw [hnone, List.append_nil] at hdue
    have hsplit : updates cb log ++ updates cb r.2 = updates cb log ++ begunIn r.2 := by
      rw [← hdue', ← hdue]
      exact hall
    exact List.append_cancel_left hsplit

theorem callbacks_agree_two :
    let registers : List (CallbackInput Nat Nat) :=
      [.registerCallback (some 1), .registerCallback (some 2)]
    let inputs : List (CallbackInput Nat Nat) :=
      [.beginBroadcast 0 10 [2, 1], .onUpgradingUpdate 0, .beginBroadcast 1 (-1) [1, 2],
        .onUpgradingUpdate 0, .finishBroadcast 0, .beginBroadcast 1 (-1) [1, 2],
        .onUpgradingUpdate 1, .onUpgradingUpdate 1, .finishBroadcast 1]
    let s := (callbackList.run Callbacks.start registers).1
    updates 1 (callbackList.run s inputs).2 = [10, -1] := by
  intro registers inputs s
  have hreach : callbackList.Reach CallbackInput.Possible Callbacks.start s
      ([] ++ (callbackList.run Callbacks.start registers).2) :=
    Machine.Reach.start.run (by decide)
  have hinputs : callbackList.Admits CallbackInput.Possible s
      ([] ++ (callbackList.run Callbacks.start registers).2) inputs := by decide
  exact (callbacks_agree hreach).2 inputs hinputs rfl rfl 1 (by decide) (by decide) (by decide)

end Runs

end Model

end VRAdmin
