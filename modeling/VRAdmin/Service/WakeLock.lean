import VRAdmin.Service.HMDReceiver

/-! # The wake lock and the sensor that controls it

The lock is taken by the delivery of a near reading and given back by that of a far
reading or when the headset is unplugged. `onDestroy` unregisters the listener and does
not look at the lock: if the lock is held then, or a near reading is still to be
delivered, nothing that the sensor does will give it back.
-/

namespace VRAdmin

open Foundation

/-! ## What a log says about the lock -/

/-- Whether a call on the lock takes it. -/
def HeadsetEvent.lock : HeadsetEvent → Option Bool
  | .acquire => some true
  | .release => some false
  | _ => none

/-- The events that the lock is to follow. -/
inductive Control
  | near
  | far
  | detached
deriving DecidableEq

def HeadsetEvent.control : HeadsetEvent → Option Control
  | .onPSensorNear => some .near
  | .onPSensorFar => some .far
  | .onUSBDetached => some .detached
  | _ => none

/-- Whether the lock is held behind these events. -/
def heldAfter (held : Bool) (evs : List HeadsetEvent) : Bool :=
  evs.foldl (fun held e => e.lock.getD held) held

/-- `acquire` is called only when the lock is not held, `release` only when it is. -/
def LockUse : Bool → List HeadsetEvent → Prop
  | _, [] => True
  | held, e :: rest =>
      (∀ taken, e.lock = some taken → held = !taken) ∧ LockUse (e.lock.getD held) rest

def lastControl (evs : List HeadsetEvent) : Option Control :=
  (evs.filterMap HeadsetEvent.control).getLast?

@[simp] theorem heldAfter_append (held : Bool) (first second : List HeadsetEvent) :
    heldAfter held (first ++ second) = heldAfter (heldAfter held first) second :=
  List.foldl_append

theorem LockUse.append {held : Bool} {first second : List HeadsetEvent}
    (h : LockUse held first) (h' : LockUse (heldAfter held first) second) :
    LockUse held (first ++ second) := by
  induction first generalizing held with
  | nil => exact h'
  | cons e rest ih => exact ⟨h.1, ih h.2 h'⟩

theorem lastControl_append (first second : List HeadsetEvent) :
    lastControl (first ++ second) = (lastControl second).or (lastControl first) := by
  rw [lastControl, List.filterMap_append, List.getLast?_append]
  rfl

/-- Events that neither touch the lock nor are to control it. -/
def Quiet (evs : List HeadsetEvent) : Prop := ∀ e ∈ evs, e.lock = none ∧ e.control = none

instance (evs : List HeadsetEvent) : Decidable (Quiet evs) :=
  inferInstanceAs (Decidable (∀ e ∈ evs, _))

namespace Quiet

variable {evs : List HeadsetEvent}

theorem nil : Quiet [] := by decide

theorem heldAfter_eq (h : Quiet evs) (held : Bool) : heldAfter held evs = held := by
  induction evs with
  | nil => rfl
  | cons e rest ih =>
      have he := (h e List.mem_cons_self).1
      rw [heldAfter, List.foldl_cons, he]
      exact ih fun e' he' => h e' (List.mem_cons_of_mem e he')

theorem lockUse (h : Quiet evs) (held : Bool) : LockUse held evs := by
  induction evs with
  | nil => trivial
  | cons e rest ih =>
      have he := (h e List.mem_cons_self).1
      rw [LockUse, he]
      refine ⟨?_, ih fun e' he' => h e' (List.mem_cons_of_mem e he')⟩
      intro taken hsome
      cases hsome

theorem lastControl_eq (h : Quiet evs) : lastControl evs = none := by
  rw [lastControl, List.filterMap_eq_nil_iff.mpr fun e he => (h e he).2]
  rfl

end Quiet

/-! ## What the receiver does -/

def nearIntent : Intent := proximityIntent "psensor/1"
def farIntent : Intent := proximityIntent "psensor/0"

namespace HMDReceiver

theorem action_ne :
    proximitySensor2 ≠ ACTION_USB_DEVICE_ATTACHED ∧
      proximitySensor2 ≠ ACTION_USB_DEVICE_DETACHED ∧ proximitySensor2 ≠ bootCompleted ∧
      ACTION_USB_DEVICE_DETACHED ≠ ACTION_USB_DEVICE_ATTACHED := by
  decide +kernel

theorem onReceive_proximity (app : VRAdminApplication) (type : String) :
    onReceive app (proximityIntent type) =
      if JString.lit type = JString.lit "psensor/1" then app.onPSensorNear
      else if JString.lit type = JString.lit "psensor/0" then app.onPSensorFar
      else (app, []) := by
  obtain ⟨hattached, hdetached, hboot, -⟩ := action_ne
  simp only [onReceive, onSystemIntent, onProximityIntent, proximityIntent, Option.some.injEq,
    hattached, hdetached, hboot, reduceCtorEq, if_false, if_true, List.nil_append]

theorem onReceive_near (app : VRAdminApplication) :
    onReceive app nearIntent = app.onPSensorNear := by
  rw [nearIntent, onReceive_proximity, if_pos rfl]

theorem onReceive_far (app : VRAdminApplication) :
    onReceive app farIntent = app.onPSensorFar := by
  have hne : JString.lit "psensor/0" ≠ JString.lit "psensor/1" := by decide +kernel
  rw [farIntent, onReceive_proximity, if_neg hne, if_pos rfl]

theorem onReceive_attached (app : VRAdminApplication) (usbDevice : Option UsbDevice) :
    onReceive app (usbIntent true usbDevice) =
      (app, if usbDevice.any isPhonePlugin then
        [.sendBroadcast (.plain "android.intent.action.lvr_hmd_in"), .onUSBAttached] else []) := by
  have hne := action_ne.1.symm
  cases usbDevice with
  | none =>
      simp only [onReceive, onSystemIntent, onProximityIntent, usbIntent, Option.some.injEq, hne,
        reduceCtorEq, if_false, if_true, Option.any, Bool.false_eq_true, List.append_nil]
  | some usbDevice =>
      cases hphone : isPhonePlugin usbDevice with
      | true =>
          simp only [onReceive, onSystemIntent, onProximityIntent, usbIntent, Option.some.injEq,
            hne, reduceCtorEq, if_false, if_true, Option.any, hphone, List.append_nil,
            VRAdminApplication.onUSBAttached]
      | false =>
          simp only [onReceive, onSystemIntent, onProximityIntent, usbIntent, Option.some.injEq,
            hne, reduceCtorEq, if_false, if_true, Option.any, hphone, Bool.false_eq_true,
            List.append_nil]

theorem onReceive_detached (app : VRAdminApplication) (usbDevice : Option UsbDevice) :
    onReceive app (usbIntent false usbDevice) =
      if usbDevice.any isPhonePlugin then
        (app.onUSBDetached.1,
          .sendBroadcast (.plain "android.intent.action.lvr_hmd_out") :: app.onUSBDetached.2)
      else (app, []) := by
  obtain ⟨-, hproximity, -, hattached⟩ := action_ne
  have hne := hproximity.symm
  cases usbDevice with
  | none =>
      simp only [onReceive, onSystemIntent, onProximityIntent, usbIntent, Option.some.injEq,
        hattached, hne, reduceCtorEq, if_false, if_true, Option.any, Bool.false_eq_true,
        List.append_nil]
  | some usbDevice =>
      cases hphone : isPhonePlugin usbDevice with
      | true =>
          simp only [onReceive, onSystemIntent, onProximityIntent, usbIntent, Option.some.injEq,
            hattached, hne, reduceCtorEq, if_false, if_true, Option.any, hphone,
            Bool.false_eq_true, List.append_nil]
      | false =>
          simp only [onReceive, onSystemIntent, onProximityIntent, usbIntent, Option.some.injEq,
            hattached, hne, reduceCtorEq, if_false, if_true, Option.any, hphone,
            Bool.false_eq_true, List.append_nil]

end HMDReceiver

namespace Headset

variable {s : Headset} {k : Nat}

theorem onDestroy_fst (s : Headset) : s.onDestroy.1 = { s with service := none } := by
  unfold onDestroy
  split <;> rfl

theorem deliver_fst (hk : k < s.inFlight.length) :
    (s.deliver k).1.inFlight = s.inFlight.eraseIdx k ∧
      (s.deliver k).1.service = s.service := by
  unfold deliver
  rw [List.getElem?_eq_getElem hk]
  exact ⟨rfl, rfl⟩

theorem deliver_none (hk : s.inFlight[k]? = none) : s.deliver k = (s, []) := by
  rw [deliver, hk]

theorem deliver_near (hk : s.inFlight[k]? = some nearIntent) :
    s.deliver k =
      ({ s with app := s.app.onPSensorNear.1, inFlight := s.inFlight.eraseIdx k },
        s.app.onPSensorNear.2) := by
  rw [deliver, hk]
  dsimp only
  rw [HMDReceiver.onReceive_near]

theorem deliver_far (hk : s.inFlight[k]? = some farIntent) :
    s.deliver k =
      ({ s with app := s.app.onPSensorFar.1, inFlight := s.inFlight.eraseIdx k },
        s.app.onPSensorFar.2) := by
  rw [deliver, hk]
  dsimp only
  rw [HMDReceiver.onReceive_far]

theorem usb_attached (s : Headset) (usbDevice : Option UsbDevice) :
    s.usb true usbDevice =
      (s, if usbDevice.any HMDReceiver.isPhonePlugin then
        [.sendBroadcast (.plain "android.intent.action.lvr_hmd_in"), .onUSBAttached] else []) := by
  rw [usb, HMDReceiver.onReceive_attached]

theorem usb_detached (s : Headset) (usbDevice : Option UsbDevice) :
    s.usb false usbDevice =
      if usbDevice.any HMDReceiver.isPhonePlugin then
        ({ s with app := s.app.onUSBDetached.1 },
          .sendBroadcast (.plain "android.intent.action.lvr_hmd_out") :: s.app.onUSBDetached.2)
      else (s, []) := by
  rw [usb, HMDReceiver.onReceive_detached]
  cases usbDevice.any HMDReceiver.isPhonePlugin with
  | true => rfl
  | false => rfl

end Headset

/-! ## What the application does to the lock -/

namespace VRAdminApplication

variable {app app' app'' : VRAdminApplication} {evs evs' : List HeadsetEvent}

/-- A piece of a run after which there is at most one reference to the lock, with the
calls that it made on the lock. -/
structure Guarded (app app' : VRAdminApplication) (evs : List HeadsetEvent) : Prop where
  one : app'.mWakeLock ≤ 1
  held_eq : app'.isHeld = heldAfter app.isHeld evs
  use : LockUse app.isHeld evs

theorem Guarded.trans (h : Guarded app app' evs) (h' : Guarded app' app'' evs') :
    Guarded app app'' (evs ++ evs') := by
  refine ⟨h'.one, ?_, h.use.append ?_⟩
  · rw [heldAfter_append, ← h.held_eq]
    exact h'.held_eq
  · rw [← h.held_eq]
    exact h'.use

theorem Guarded.cons (h : Guarded app app' evs) {e : HeadsetEvent} (he : e.lock = none) :
    Guarded app app' (e :: evs) := by
  refine ⟨h.one, ?_, ?_⟩
  · rw [heldAfter, List.foldl_cons, he]
    exact h.held_eq
  · rw [LockUse, he]
    refine ⟨?_, h.use⟩
    intro taken hsome
    cases hsome

/-- Nothing is done to the lock. -/
theorem Guarded.of_quiet (hone : app.mWakeLock ≤ 1) (hsame : app'.mWakeLock = app.mWakeLock)
    (hquiet : Quiet evs) : Guarded app app' evs := by
  have hheld : app'.isHeld = app.isHeld := by rw [isHeld, isHeld, hsame]
  exact ⟨hsame ▸ hone, hheld.trans (hquiet.heldAfter_eq _).symm, hquiet.lockUse _⟩

theorem acquireLock_guarded (hone : app.mWakeLock ≤ 1) :
    Guarded app app.acquireLock.1 app.acquireLock.2 := by
  unfold acquireLock
  split
  · next hfree =>
      rw [Bool.and_eq_true, Bool.not_eq_true'] at hfree
      have hzero : app.mWakeLock = 0 := by simpa [isHeld] using hfree.2
      refine ⟨?_, ?_, ?_⟩
      · dsimp only
        omega
      · simp [isHeld, heldAfter, HeadsetEvent.lock]
      · rw [hfree.2]
        exact ⟨fun taken hsome => by cases hsome; rfl, trivial⟩
  · exact Guarded.of_quiet hone rfl Quiet.nil

theorem releaseLock_guarded (hone : app.mWakeLock ≤ 1) :
    Guarded app app.releaseLock.1 app.releaseLock.2 := by
  unfold releaseLock
  split
  · next hheld =>
      rw [Bool.and_eq_true] at hheld
      refine ⟨?_, ?_, ?_⟩
      · dsimp only
        omega
      · have hzero : app.mWakeLock - 1 = 0 := by omega
        simp [isHeld, heldAfter, HeadsetEvent.lock, hzero]
      · rw [hheld.2]
        exact ⟨fun taken hsome => by cases hsome; rfl, trivial⟩
  · exact Guarded.of_quiet hone rfl Quiet.nil

theorem acquireLock_flag (app : VRAdminApplication) :
    app.acquireLock.1.mHoldWakeLock = app.mHoldWakeLock := by
  unfold acquireLock
  split <;> rfl

theorem releaseLock_flag (app : VRAdminApplication) :
    app.releaseLock.1.mHoldWakeLock = app.mHoldWakeLock := by
  unfold releaseLock
  split <;> rfl

theorem acquireLock_held (hflag : app.mHoldWakeLock = true) : app.acquireLock.1.isHeld = true := by
  unfold acquireLock
  rw [hflag]
  cases hheld : app.isHeld with
  | true => exact hheld
  | false => simp [isHeld]

theorem releaseLock_not_held (hone : app.mWakeLock ≤ 1)
    (hflag : app.isHeld = true → app.mHoldWakeLock = true) : app.releaseLock.1.isHeld = false := by
  unfold releaseLock
  cases hheld : app.isHeld with
  | true =>
      have hzero : app.mWakeLock - 1 = 0 := by omega
      rw [hflag hheld]
      simp [isHeld, hzero]
  | false => simpa using hheld

theorem lastControl_near (app : VRAdminApplication) :
    lastControl app.onPSensorNear.2 = some .near := by
  unfold onPSensorNear acquireLock
  split <;> rfl

end VRAdminApplication

/-! ## What the sensor's side does -/

theorem registerSensor_quiet (u : PSensorUtility) : Quiet u.registerSensor.2 := by
  unfold PSensorUtility.registerSensor
  split
  · exact Quiet.nil
  · split
    · exact Quiet.nil
    · dsimp only
      decide

theorem unregisterSensor_quiet (u : PSensorUtility) : Quiet u.unregisterSensor.2 := by
  unfold PSensorUtility.unregisterSensor
  split
  · exact Quiet.nil
  · dsimp only
    decide

/-- A reading is broadcast as near or as far, and does nothing else to the screen. -/
theorem onSensorChanged_cases (event : SensorEvent) :
    Quiet (PSensorUtility.onSensorChanged event) ∧
      ∀ intent ∈ broadcasts (PSensorUtility.onSensorChanged event),
        intent = nearIntent ∨ intent = farIntent := by
  unfold PSensorUtility.onSensorChanged
  split
  · split
    · exact ⟨by decide, fun intent hmem => Or.inl (List.mem_singleton.mp hmem)⟩
    · exact ⟨by decide, fun intent hmem => Or.inr (List.mem_singleton.mp hmem)⟩
  · exact ⟨Quiet.nil, by simp [broadcasts]⟩

/-! ## Every run -/

/-- What the components promise whatever happens: the lock is used as it is meant to, it
is held only behind a near reading, and a service that listens has let it be used. -/
structure LockSound (s : Headset) (log : List HeadsetEvent) : Prop where
  guarded : VRAdminApplication.Guarded VRAdminApplication.start s.app log
  flag : s.registered = true ∨ s.inFlight ≠ [] ∨ s.app.isHeld = true →
    s.app.mHoldWakeLock = true
  readings : ∀ intent ∈ s.inFlight, intent = nearIntent ∨ intent = farIntent
  last_near : s.app.isHeld = true → lastControl log = some .near

namespace LockSound

variable {s : Headset} {log : List HeadsetEvent}

theorem start : LockSound Headset.start [] :=
  ⟨⟨by decide, rfl, trivial⟩, by decide, by simp [Headset.start], by decide⟩

theorem quiet (h : LockSound s log) {s' : Headset} {evs : List HeadsetEvent}
    (hquiet : Quiet evs) (hsame : s'.app.mWakeLock = s.app.mWakeLock)
    (hflag : s'.registered = true ∨ s'.inFlight ≠ [] ∨ s'.app.isHeld = true →
      s'.app.mHoldWakeLock = true)
    (hreadings : ∀ intent ∈ s'.inFlight, intent = nearIntent ∨ intent = farIntent) :
    LockSound s' (log ++ evs) := by
  have hheld : s'.app.isHeld = s.app.isHeld := by
    rw [VRAdminApplication.isHeld, VRAdminApplication.isHeld, hsame]
  refine ⟨h.guarded.trans (.of_quiet h.guarded.one hsame hquiet), hflag, hreadings, ?_⟩
  rw [hheld, lastControl_append, hquiet.lastControl_eq]
  exact h.last_near

theorem onCreate (h : LockSound s log) (device : Option JString) (sensor : Bool) :
    LockSound (s.onCreate device sensor).1 (log ++ (s.onCreate device sensor).2) := by
  unfold Headset.onCreate
  split
  · exact h.quiet (registerSensor_quiet _) rfl (fun _ => rfl) h.readings
  · refine h.quiet Quiet.nil rfl (fun hcases => h.flag ?_) h.readings
    rcases hcases with hnone | hrest
    · cases hnone
    · exact Or.inr hrest

theorem onDestroy (h : LockSound s log) :
    LockSound s.onDestroy.1 (log ++ s.onDestroy.2) := by
  have hflag : (false = true ∨ s.inFlight ≠ [] ∨ s.app.isHeld = true) →
      s.app.mHoldWakeLock = true := by
    intro hcases
    rcases hcases with hnone | hrest
    · cases hnone
    · exact h.flag (Or.inr hrest)
  unfold Headset.onDestroy
  split
  · exact h.quiet (unregisterSensor_quiet _) rfl hflag h.readings
  · exact h.quiet Quiet.nil rfl hflag h.readings

theorem onSensorChanged (h : LockSound s log) (event : SensorEvent) :
    LockSound (s.onSensorChanged event).1 (log ++ (s.onSensorChanged event).2) := by
  obtain ⟨hquiet, hreadings⟩ := onSensorChanged_cases event
  unfold Headset.onSensorChanged
  split
  · next hreg =>
      refine h.quiet hquiet rfl (fun _ => h.flag (Or.inl hreg)) fun intent hmem => ?_
      rcases List.mem_append.mp hmem with hold | hnew
      · exact h.readings intent hold
      · exact hreadings intent hnew
  · exact h.quiet Quiet.nil rfl h.flag h.readings

theorem received (h : LockSound s log) {k : Nat} {intent : Intent}
    (hk : s.inFlight[k]? = some intent) {app : VRAdminApplication} {evs : List HeadsetEvent}
    (hguarded : VRAdminApplication.Guarded s.app app evs)
    (hflag : app.mHoldWakeLock = s.app.mHoldWakeLock)
    (hlast : app.isHeld = true → lastControl evs = some .near) :
    LockSound { s with app := app, inFlight := s.inFlight.eraseIdx k } (log ++ evs) := by
  have hmem := List.mem_of_getElem? hk
  have hon : s.app.mHoldWakeLock = true := h.flag (Or.inr (Or.inl (List.ne_nil_of_mem hmem)))
  refine ⟨h.guarded.trans hguarded, fun _ => hflag.trans hon, ?_, ?_⟩
  · exact fun other hother => h.readings other (List.mem_of_mem_eraseIdx hother)
  · intro hheld
    rw [lastControl_append, hlast hheld]
    rfl

theorem releaseLock_not_held (h : LockSound s log) : ¬ s.app.releaseLock.1.isHeld = true :=
  ne_true_of_eq_false <|
    VRAdminApplication.releaseLock_not_held h.guarded.one fun hheld =>
      h.flag (Or.inr (Or.inr hheld))

theorem deliver (h : LockSound s log) (k : Nat) :
    LockSound (s.deliver k).1 (log ++ (s.deliver k).2) := by
  cases hk : s.inFlight[k]? with
  | none =>
      rw [Headset.deliver_none hk]
      exact h.quiet Quiet.nil rfl h.flag h.readings
  | some intent =>
      rcases h.readings intent (List.mem_of_getElem? hk) with rfl | rfl
      · rw [Headset.deliver_near hk]
        have hguarded := (s.app.acquireLock_guarded h.guarded.one).cons (e := .wakeUp) rfl
        exact h.received hk (hguarded.cons rfl) s.app.acquireLock_flag
          fun _ => s.app.lastControl_near
      · rw [Headset.deliver_far hk]
        have hguarded := (s.app.releaseLock_guarded h.guarded.one).cons (e := .goToSleep) rfl
        exact h.received hk (hguarded.cons rfl) s.app.releaseLock_flag
          fun hheld => absurd hheld h.releaseLock_not_held

theorem usb (h : LockSound s log) (attached : Bool) (usbDevice : Option UsbDevice) :
    LockSound (s.usb attached usbDevice).1 (log ++ (s.usb attached usbDevice).2) := by
  cases attached with
  | true =>
      rw [Headset.usb_attached]
      refine h.quiet ?_ rfl h.flag h.readings
      dsimp only
      split
      · decide
      · exact Quiet.nil
  | false =>
      rw [Headset.usb_detached]
      cases usbDevice.any HMDReceiver.isPhonePlugin with
      | false => exact h.quiet Quiet.nil rfl h.flag h.readings
      | true =>
          have hfree : ¬ s.app.onUSBDetached.1.isHeld = true := h.releaseLock_not_held
          have hguarded := (s.app.releaseLock_guarded h.guarded.one).cons (e := .wakeUp) rfl
          refine ⟨h.guarded.trans ((hguarded.cons rfl).cons rfl), ?_, h.readings, ?_⟩
          · intro hcases
            refine s.app.releaseLock_flag.trans (h.flag ?_)
            rcases hcases with hreg | hflight | hheld
            · exact Or.inl hreg
            · exact Or.inr (Or.inl hflight)
            · exact absurd hheld hfree
          · exact fun hheld => absurd hheld hfree

theorem step (h : LockSound s log) (i : HeadsetInput) :
    LockSound (headset.step s i).1 (log ++ (headset.step s i).2) := by
  cases i with
  | onCreate device sensor => exact h.onCreate device sensor
  | onDestroy => exact h.onDestroy
  | onSensorChanged event => exact h.onSensorChanged event
  | deliver k => exact h.deliver k
  | usb attached usbDevice => exact h.usb attached usbDevice

end LockSound

/-- A service is created when there is none. -/
def Lifecycle (s : Headset) (_log : List HeadsetEvent) : HeadsetInput → Prop
  | .onCreate _ _ => s.service = none
  | _ => True

/-- When the service is destroyed, no near reading is still to be delivered, and a lock
that is held then has a far reading under way that will give it back. -/
def SafeDestroy (s : Headset) (_log : List HeadsetEvent) : HeadsetInput → Prop
  | .onDestroy => nearIntent ∉ s.inFlight ∧ (s.app.isHeld = true → farIntent ∈ s.inFlight)
  | _ => True

def SafeStep (s : Headset) (log : List HeadsetEvent) (i : HeadsetInput) : Prop :=
  Lifecycle s log i ∧ SafeDestroy s log i

theorem reach_lockSound {allowed : Headset → List HeadsetEvent → HeadsetInput → Prop}
    {s : Headset} {log : List HeadsetEvent} (h : headset.Reach allowed Headset.start s log) :
    LockSound s log :=
  h.invariant LockSound.start fun _ _ i hs _ => hs.step i

/-! ## Runs without an early destruction -/

/-- Who will give the lock back: a listener that is registered, or a far reading under
way. Near readings are under way only while the listener is registered. -/
structure Covered (s : Headset) : Prop where
  near_listens : nearIntent ∈ s.inFlight → s.registered = true
  held_covered : s.app.isHeld = true → s.registered = true ∨ farIntent ∈ s.inFlight

namespace Covered

variable {s : Headset} {log : List HeadsetEvent}

theorem start : Covered Headset.start where
  near_listens := fun hmem => by cases hmem
  held_covered := fun hheld => by cases hheld

theorem onCreate (h : Covered s) (hnone : s.service = none) (device : Option JString)
    (sensor : Bool) : Covered (s.onCreate device sensor).1 := by
  have hidle : ¬ s.registered = true := by
    rw [Headset.registered, hnone]
    exact Bool.false_ne_true
  have hnear : nearIntent ∉ s.inFlight := fun hmem => hidle (h.near_listens hmem)
  have hfar : s.app.isHeld = true → farIntent ∈ s.inFlight := by
    intro hheld
    rcases h.held_covered hheld with hreg | hfar
    · exact absurd hreg hidle
    · exact hfar
  unfold Headset.onCreate
  split
  · exact ⟨fun hmem => absurd hmem hnear, fun hheld => Or.inr (hfar hheld)⟩
  · exact ⟨fun hmem => absurd hmem hnear, fun hheld => Or.inr (hfar hheld)⟩

theorem onDestroy (hsafe : SafeDestroy s log .onDestroy) : Covered s.onDestroy.1 := by
  rw [Headset.onDestroy_fst]
  exact ⟨fun hmem => absurd hmem hsafe.1, fun hheld => Or.inr (hsafe.2 hheld)⟩

theorem onSensorChanged (h : Covered s) (event : SensorEvent) :
    Covered (s.onSensorChanged event).1 := by
  unfold Headset.onSensorChanged
  split
  · next hreg => exact ⟨fun _ => hreg, fun _ => Or.inl hreg⟩
  · exact h

theorem deliver (h : Covered s) (hsound : LockSound s log) (k : Nat) :
    Covered (s.deliver k).1 := by
  cases hk : s.inFlight[k]? with
  | none => rwa [Headset.deliver_none hk]
  | some intent =>
      have hmem := List.mem_of_getElem? hk
      rcases hsound.readings intent hmem with rfl | rfl
      · rw [Headset.deliver_near hk]
        have hreg := h.near_listens hmem
        exact ⟨fun _ => hreg, fun _ => Or.inl hreg⟩
      · rw [Headset.deliver_far hk]
        exact ⟨fun hnear => h.near_listens (List.mem_of_mem_eraseIdx hnear),
          fun hheld => absurd hheld hsound.releaseLock_not_held⟩

theorem usb (h : Covered s) (hsound : LockSound s log) (attached : Bool)
    (usbDevice : Option UsbDevice) : Covered (s.usb attached usbDevice).1 := by
  cases attached with
  | true => rwa [Headset.usb_attached]
  | false =>
      rw [Headset.usb_detached]
      cases usbDevice.any HMDReceiver.isPhonePlugin with
      | false => exact h
      | true =>
          exact ⟨h.near_listens, fun hheld => absurd hheld hsound.releaseLock_not_held⟩

theorem step (h : Covered s) (hsound : LockSound s log) {i : HeadsetInput}
    (hi : SafeStep s log i) : Covered (headset.step s i).1 := by
  cases i with
  | onCreate device sensor => exact h.onCreate hi.1 device sensor
  | onDestroy => exact onDestroy hi.2
  | onSensorChanged event => exact h.onSensorChanged event
  | deliver k => exact h.deliver hsound k
  | usb attached usbDevice => exact h.usb hsound attached usbDevice

end Covered

theorem reach_covered {s : Headset} {log : List HeadsetEvent}
    (h : headset.Reach SafeStep Headset.start s log) : LockSound s log ∧ Covered s :=
  h.invariant (P := fun s log => LockSound s log ∧ Covered s)
    ⟨LockSound.start, Covered.start⟩
    fun _ _ i hs hi => ⟨hs.1.step i, hs.2.step hs.1 hi⟩

/-! ## Behind an early destruction -/

/-- Of two or more broadcasts, one can be delivered before a given one. -/
theorem exists_delivered_before {intents : List Intent} (hlen : 2 ≤ intents.length)
    {intent : Intent} (hmem : intent ∈ intents) :
    ∃ k, k < intents.length ∧ intent ∈ intents.eraseIdx k := by
  match intents, hlen with
  | first :: second :: rest, hlen =>
      by_cases hfirst : intent = first
      · exact ⟨1, hlen, hfirst ▸ List.mem_cons_self⟩
      · exact ⟨0, by simp, List.mem_of_ne_of_mem hfirst hmem⟩

/-- Without a service, all broadcasts can be delivered with a near reading as the last one,
which takes the lock. The induction is on the broadcasts in flight. -/
theorem deliver_near_last (n : Nat) {s : Headset} {log : List HeadsetEvent}
    (hsound : LockSound s log) (hlen : s.inFlight.length = n + 1)
    (hnear : nearIntent ∈ s.inFlight) (hnone : s.service = none) :
    ∃ inputs : List HeadsetInput, (∀ i ∈ inputs, ∃ k, i = .deliver k) ∧
      (headset.run s inputs).1.inFlight = [] ∧
      (headset.run s inputs).1.app.isHeld = true ∧
      (headset.run s inputs).1.registered = false := by
  induction n generalizing s log with
  | zero =>
      obtain ⟨only, honly⟩ := List.length_eq_one_iff.mp hlen
      have hintent : only = nearIntent := by
        rw [honly] at hnear
        exact (List.mem_singleton.mp hnear).symm
      have hflag := hsound.flag (Or.inr (Or.inl (List.ne_nil_of_mem hnear)))
      have hk : s.inFlight[0]? = some nearIntent := by
        rw [honly, hintent]
        rfl
      refine ⟨[.deliver 0], by simp, ?_⟩
      rw [show (headset.run s [.deliver 0]).1 = (s.deliver 0).1 from rfl, Headset.deliver_near hk]
      refine ⟨?_, VRAdminApplication.acquireLock_held hflag, ?_⟩
      · dsimp only
        rw [honly, List.eraseIdx_cons_zero]
      · rw [Headset.registered, hnone]
  | succ n ih =>
      obtain ⟨k, hk, hkept⟩ := exists_delivered_before (by omega) hnear
      obtain ⟨hflight, hservice⟩ := Headset.deliver_fst hk
      obtain ⟨inputs, hdeliver, hend⟩ := ih (hsound.deliver k)
        (by rw [hflight, List.length_eraseIdx_of_lt hk]; omega) (by rwa [hflight])
        (hservice.trans hnone)
      refine ⟨.deliver k :: inputs, ?_, hend⟩
      intro i hi
      rcases List.mem_cons.mp hi with rfl | hi
      · exact ⟨k, rfl⟩
      · exact hdeliver i hi

/-- The lock is used as it is meant to, and with no broadcast in flight it is held only
while the listener is registered and the last event was a near reading. -/
structure Controlled (s : Headset) (log : List HeadsetEvent) : Prop where
  use : LockUse false log
  sensor : s.inFlight = [] → s.app.isHeld = true →
    s.registered = true ∧ lastControl log = some .near

theorem controlled_of_covered {s : Headset} {log : List HeadsetEvent} (hsound : LockSound s log)
    (hcovered : Covered s) : Controlled s log := by
  refine ⟨hsound.guarded.use, fun hflight hheld => ⟨?_, hsound.last_near hheld⟩⟩
  rcases hcovered.held_covered hheld with hreg | hfar
  · exact hreg
  · rw [hflight] at hfar
    cases hfar

/-- An early destruction and some deliveries leave the lock without its sensor. -/
theorem unsafe_onDestroy {s : Headset} {log : List HeadsetEvent} (hsound : LockSound s log)
    (hbad : ¬ SafeDestroy s log .onDestroy) :
    ∃ inputs : List HeadsetInput, (∀ i ∈ inputs, ∃ k, i = .deliver k) ∧
      ¬ Controlled (headset.run s (.onDestroy :: inputs)).1
        (log ++ (headset.run s (.onDestroy :: inputs)).2) := by
  have hleft : ∃ inputs : List HeadsetInput, (∀ i ∈ inputs, ∃ k, i = .deliver k) ∧
      (headset.run s.onDestroy.1 inputs).1.inFlight = [] ∧
      (headset.run s.onDestroy.1 inputs).1.app.isHeld = true ∧
      (headset.run s.onDestroy.1 inputs).1.registered = false := by
    by_cases hnear : nearIntent ∈ s.inFlight
    · have hpos := List.length_pos_of_mem hnear
      refine deliver_near_last (s.inFlight.length - 1) hsound.onDestroy ?_ ?_ ?_
      · rw [Headset.onDestroy_fst]
        dsimp only
        omega
      · rwa [Headset.onDestroy_fst]
      · rw [Headset.onDestroy_fst]
    · have hheld : s.app.isHeld = true ∧ farIntent ∉ s.inFlight := by
        by_contra hcon
        refine hbad ⟨hnear, fun hheld => ?_⟩
        by_contra hfar
        exact hcon ⟨hheld, hfar⟩
      have hflight : s.inFlight = [] := by
        apply List.eq_nil_iff_forall_not_mem.mpr
        intro intent hmem
        rcases hsound.readings intent hmem with rfl | rfl
        · exact hnear hmem
        · exact hheld.2 hmem
      refine ⟨[], by simp, ?_⟩
      rw [Headset.onDestroy_fst]
      exact ⟨hflight, hheld.1, rfl⟩
  obtain ⟨inputs, hdeliver, hflight, hheld, hreg⟩ := hleft
  refine ⟨inputs, hdeliver, fun hcontrolled => ?_⟩
  exact absurd (hreg.symm.trans (hcontrolled.sensor hflight hheld).1) Bool.false_ne_true

/-- In every run the lock is taken only when it is free and given back only when it is
held. It does not outlive its sensor in the runs that destroy the service only while the
lock is free or about to be given back, with no near reading in flight; any other
destruction can be followed by deliveries after which it does. -/
theorem wake_lock (s : Headset) (log : List HeadsetEvent) :
    (headset.Reach Lifecycle Headset.start s log → LockUse false log) ∧
    (headset.Reach SafeStep Headset.start s log →
      Controlled s log ∧
      (¬ SafeDestroy s log .onDestroy →
        ∃ inputs : List HeadsetInput, (∀ i ∈ inputs, ∃ k, i = .deliver k) ∧
          ¬ Controlled (headset.run s (.onDestroy :: inputs)).1
            (log ++ (headset.run s (.onDestroy :: inputs)).2))) := by
  constructor
  · intro hreach
    exact (reach_lockSound hreach).guarded.use
  · intro hreach
    obtain ⟨hsound, hcovered⟩ := reach_covered hreach
    exact ⟨controlled_of_covered hsound hcovered, unsafe_onDestroy hsound⟩

/-- A near reading is delivered. -/
def nearDelivered : List HeadsetInput :=
  [.onCreate (some (JString.lit "LeVR_Max_1")) true, .onSensorChanged ⟨TYPE_PROXIMITY, 0⟩,
    .deliver 0]

/-- Then the service is destroyed while a far reading is still to be delivered. -/
def farInFlight : List HeadsetInput :=
  nearDelivered ++ [.onSensorChanged ⟨TYPE_PROXIMITY, 5⟩, .onDestroy]

/-- The near reading holds the lock, and the far one gives it back behind the destruction. -/
theorem wake_lock_near :
    (headset.run Headset.start nearDelivered).1.app.isHeld = true ∧
      (headset.run Headset.start nearDelivered).1.registered = true ∧
      (headset.run Headset.start farInFlight).1.app.isHeld = true ∧
      (headset.run Headset.start farInFlight).1.registered = false ∧
      (headset.run Headset.start (farInFlight ++ [.deliver 0])).1.app.isHeld = false := by
  have hnear := Machine.Reach.start.run
    (show headset.Admits SafeStep Headset.start [] nearDelivered from
      ⟨⟨rfl, trivial⟩, ⟨trivial, trivial⟩, ⟨trivial, trivial⟩, trivial⟩)
  let s := (headset.run Headset.start
    (nearDelivered ++ [.onSensorChanged ⟨TYPE_PROXIMITY, 5⟩])).1
  have hsafe : nearIntent ∉ s.inFlight ∧ (s.app.isHeld = true → farIntent ∈ s.inFlight) := by
    decide +kernel
  have hfar := Machine.Reach.start.run
    (show headset.Admits SafeStep Headset.start [] (farInFlight ++ [.deliver 0]) from
      ⟨⟨rfl, trivial⟩, ⟨trivial, trivial⟩, ⟨trivial, trivial⟩, ⟨trivial, trivial⟩,
        ⟨trivial, hsafe⟩, ⟨trivial, trivial⟩, trivial⟩)
  have hheld : (headset.run Headset.start nearDelivered).1.app.isHeld = true := by decide +kernel
  obtain ⟨hcontrolled, -⟩ := (wake_lock _ _).2 hnear
  obtain ⟨hdestroyed, -⟩ := (wake_lock _ _).2 hfar
  refine ⟨hheld, (hcontrolled.sensor (by decide +kernel) hheld).1, by decide +kernel,
    by decide +kernel, ?_⟩
  rw [← Bool.not_eq_true]
  intro hlost
  exact absurd (hdestroyed.sensor (by decide +kernel) hlost).1 (by decide +kernel)

/-- A destruction while the lock is held and no far reading is under way. -/
theorem wake_lock_outlives :
    ¬ ∀ (s : Headset) (log : List HeadsetEvent),
      headset.Reach Lifecycle Headset.start s log → Controlled s log := by
  intro hall
  have hreach := Machine.Reach.start.run
    (show headset.Admits Lifecycle Headset.start [] (nearDelivered ++ [.onDestroy]) from
      ⟨rfl, trivial, trivial, trivial, trivial⟩)
  obtain ⟨hreg, -⟩ := (hall _ _ hreach).sensor (by decide +kernel) (by decide +kernel)
  exact absurd hreg (by decide +kernel)

end VRAdmin
