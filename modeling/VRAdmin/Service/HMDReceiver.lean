import VRAdmin.Foundation.Machine
import VRAdmin.Service.VRManager

/-! # The headset's sensor and the screen

On a `LeVR_Max_1` the service listens to the proximity sensor and broadcasts what it
reads; `HMDReceiver` gets these broadcasts and the USB intents and passes them on to
`VRAdminApplication`, whose static fields hold the screen's wake lock. A reading is the
rational that its float stands for. Of the application's state this part keeps the wake
lock, by its references, and the flag that lets the lock be used.
-/

namespace VRAdmin

open Foundation

structure UsbDevice where
  vendorId : Int
  productId : Int
deriving DecidableEq

/-- An intent as `HMDReceiver` looks at it. -/
structure Intent where
  action : Option JString
  type : Option JString
  usbDevice : Option UsbDevice
deriving DecidableEq

/-- The calls on `VRAdminApplication`, on the power manager, on the screen's wake lock, and
what else the components ask of the system. -/
inductive HeadsetEvent
  | onUSBAttached
  | onUSBDetached
  | onPSensorNear
  | onPSensorFar
  | wakeUp
  | goToSleep
  | acquire
  | release
  -- another lock, which a far reading takes for some milliseconds
  | acquirePartial (timeout : Nat)
  | sendBroadcast (intent : Intent)
  | startService
  | registerListener
  | unregisterListener
  | nullPointerException
deriving DecidableEq

/-! ## VRAdminApplication -/

structure VRAdminApplication where
  mWakeLock : Nat
  mHoldWakeLock : Bool

namespace VRAdminApplication

def start : VRAdminApplication := ⟨0, false⟩

def isHeld (app : VRAdminApplication) : Bool := 0 < app.mWakeLock

/-- `acquire` unless the lock is held, if the lock is to be used. -/
def acquireLock (app : VRAdminApplication) : VRAdminApplication × List HeadsetEvent :=
  if app.mHoldWakeLock && !app.isHeld then
    ({ app with mWakeLock := app.mWakeLock + 1 }, [.acquire])
  else (app, [])

/-- `release` if the lock is held and to be used. -/
def releaseLock (app : VRAdminApplication) : VRAdminApplication × List HeadsetEvent :=
  if app.mHoldWakeLock && app.isHeld then
    ({ app with mWakeLock := app.mWakeLock - 1 }, [.release])
  else (app, [])

def onUSBAttached (app : VRAdminApplication) : VRAdminApplication × List HeadsetEvent :=
  (app, [.onUSBAttached])

def onUSBDetached (app : VRAdminApplication) : VRAdminApplication × List HeadsetEvent :=
  (app.releaseLock.1, .onUSBDetached :: .wakeUp :: app.releaseLock.2)

def onPSensorNear (app : VRAdminApplication) : VRAdminApplication × List HeadsetEvent :=
  (app.acquireLock.1, .onPSensorNear :: .wakeUp :: app.acquireLock.2)

def onPSensorFar (app : VRAdminApplication) : VRAdminApplication × List HeadsetEvent :=
  (app.releaseLock.1, .onPSensorFar :: .goToSleep :: app.releaseLock.2)

def setHoldWakeLock (app : VRAdminApplication) (hold : Bool) : VRAdminApplication :=
  { app with mHoldWakeLock := hold }

end VRAdminApplication

/-! ## HMDReceiver -/

def ACTION_USB_DEVICE_ATTACHED : JString :=
  JString.lit "android.hardware.usb.action.USB_DEVICE_ATTACHED"
def ACTION_USB_DEVICE_DETACHED : JString :=
  JString.lit "android.hardware.usb.action.USB_DEVICE_DETACHED"
def bootCompleted : JString := JString.lit "android.intent.action.BOOT_COMPLETED"
def proximitySensor2 : JString := JString.lit "android.intent.action.proximity_sensor2"

/-- A broadcast that carries nothing but its action. -/
def Intent.plain (action : String) : Intent := ⟨some (JString.lit action), none, none⟩

namespace HMDReceiver

def VR_HMD_VENDOR_ID : Int := 0x2b0e
def VR_HMD_PRODUCT_ID : Int := 0x1bfb

def isPhonePlugin (device : UsbDevice) : Bool :=
  device.vendorId = VR_HMD_VENDOR_ID && device.productId = VR_HMD_PRODUCT_ID

/-- The three actions that exclude each other; a null action gets as far as the third. -/
def onSystemIntent (app : VRAdminApplication) (intent : Intent) :
    VRAdminApplication × List HeadsetEvent :=
  if intent.action = some ACTION_USB_DEVICE_ATTACHED then
    match intent.usbDevice with
    | none => (app, [])
    | some usbDevice =>
        if isPhonePlugin usbDevice then
          (app.onUSBAttached.1,
            .sendBroadcast (.plain "android.intent.action.lvr_hmd_in") :: app.onUSBAttached.2)
        else (app, [])
  else if intent.action = some ACTION_USB_DEVICE_DETACHED then
    match intent.usbDevice with
    | none => (app, [])
    | some usbDevice =>
        if isPhonePlugin usbDevice then
          (app.onUSBDetached.1,
            .sendBroadcast (.plain "android.intent.action.lvr_hmd_out") :: app.onUSBDetached.2)
        else (app, [])
  else if intent.action = some bootCompleted then (app, [.startService])
  else (app, [])

/-- The test behind them, and the type it looks at. -/
def onProximityIntent (app : VRAdminApplication) (intent : Intent) :
    VRAdminApplication × List HeadsetEvent :=
  if intent.action = some proximitySensor2 then
    match intent.type with
    | none => (app, [.nullPointerException])
    | some type =>
        if type = JString.lit "psensor/1" then app.onPSensorNear
        else if type = JString.lit "psensor/0" then app.onPSensorFar
        else (app, [])
  else (app, [])

def onReceive (app : VRAdminApplication) (intent : Intent) :
    VRAdminApplication × List HeadsetEvent :=
  if intent.action = none then (app, [.nullPointerException])
  else
    let first := onSystemIntent app intent
    let second := onProximityIntent first.1 intent
    (second.1, first.2 ++ second.2)

end HMDReceiver

/-! ## PSensorUtility and the listener of the service -/

structure SensorEvent where
  sensorType : Int
  value : Rat

/-- `mSensorListener` tells whether there is a listener, which is then registered with
the sensor manager; `mPSensor` whether the device has the sensor. -/
structure PSensorUtility where
  mSensorListener : Bool
  mPSensor : Bool
  isListening : Bool

def TYPE_PROXIMITY : Int := 8

/-- The broadcast of a reading. -/
def proximityIntent (type : String) : Intent :=
  ⟨some proximitySensor2, some (JString.lit type), none⟩

/-- The listener that `VRAdminService.onCreate` passes on. -/
def onNear : List HeadsetEvent := [.sendBroadcast (proximityIntent "psensor/1")]

def SLEEP_DELAY : Nat := 1000 * 60

def onFar : List HeadsetEvent :=
  [.acquirePartial SLEEP_DELAY, .sendBroadcast (proximityIntent "psensor/0")]

namespace PSensorUtility

def mMaxiRange : Rat := 3.5

def make (sensor : Bool) : PSensorUtility := ⟨false, sensor, false⟩

def onSensorChanged (event : SensorEvent) : List HeadsetEvent :=
  if event.sensorType = TYPE_PROXIMITY then
    if event.value < mMaxiRange then onNear else onFar
  else []

def registerSensor (u : PSensorUtility) : PSensorUtility × List HeadsetEvent :=
  if u.isListening then (u, [])
  else if !u.mPSensor then ({ u with isListening := true }, [])
  else ({ u with isListening := true, mSensorListener := true }, [.registerListener])

def unregisterSensor (u : PSensorUtility) : PSensorUtility × List HeadsetEvent :=
  if !u.isListening then (u, [])
  else ({ u with isListening := false, mSensorListener := false }, [.unregisterListener])

end PSensorUtility

/-! ## The running system -/

/-- The application, its service by the `mPSensorUtility` of the one instance that there
can be, and the service's broadcasts that `HMDReceiver` has not got yet. -/
structure Headset where
  app : VRAdminApplication
  service : Option (Option PSensorUtility)
  inFlight : List Intent

/-- What can happen; `device` is the property `ro.product.device`, and the broadcasts in
flight may arrive in any order. -/
inductive HeadsetInput
  | onCreate (device : Option JString) (sensor : Bool)
  | onDestroy
  | onSensorChanged (event : SensorEvent)
  | deliver (k : Nat)
  | usb (attached : Bool) (usbDevice : Option UsbDevice)

/-- The broadcasts among the events. -/
def broadcasts (evs : List HeadsetEvent) : List Intent :=
  evs.filterMap fun e => match e with
    | .sendBroadcast intent => some intent
    | _ => none

def usbIntent (attached : Bool) (usbDevice : Option UsbDevice) : Intent :=
  ⟨some (if attached then ACTION_USB_DEVICE_ATTACHED else ACTION_USB_DEVICE_DETACHED), none,
    usbDevice⟩

namespace Headset

def start : Headset := ⟨VRAdminApplication.start, none, []⟩

/-- The proximity listener is registered. -/
def registered (s : Headset) : Bool :=
  match s.service with
  | some (some u) => u.mSensorListener
  | _ => false

def onCreate (s : Headset) (device : Option JString) (sensor : Bool) :
    Headset × List HeadsetEvent :=
  if device = some (JString.lit "LeVR_Max_1") then
    let r := (PSensorUtility.make sensor).registerSensor
    ({ s with app := s.app.setHoldWakeLock true, service := some (some r.1) }, r.2)
  else ({ s with service := some none }, [])

def onDestroy (s : Headset) : Headset × List HeadsetEvent :=
  match s.service with
  | some (some u) => ({ s with service := none }, u.unregisterSensor.2)
  | _ => ({ s with service := none }, [])

/-- The sensor manager calls a registered listener only. -/
def onSensorChanged (s : Headset) (event : SensorEvent) : Headset × List HeadsetEvent :=
  if s.registered then
    let evs := PSensorUtility.onSensorChanged event
    ({ s with inFlight := s.inFlight ++ broadcasts evs }, evs)
  else (s, [])

def deliver (s : Headset) (k : Nat) : Headset × List HeadsetEvent :=
  match s.inFlight[k]? with
  | none => (s, [])
  | some intent =>
      let r := HMDReceiver.onReceive s.app intent
      ({ s with app := r.1, inFlight := s.inFlight.eraseIdx k }, r.2)

def usb (s : Headset) (attached : Bool) (usbDevice : Option UsbDevice) :
    Headset × List HeadsetEvent :=
  let r := HMDReceiver.onReceive s.app (usbIntent attached usbDevice)
  ({ s with app := r.1 }, r.2)

def step (s : Headset) : HeadsetInput → Headset × List HeadsetEvent
  | .onCreate device sensor => s.onCreate device sensor
  | .onDestroy => s.onDestroy
  | .onSensorChanged event => s.onSensorChanged event
  | .deliver k => s.deliver k
  | .usb attached usbDevice => s.usb attached usbDevice

end Headset

def headset : Machine Headset HeadsetInput HeadsetEvent := ⟨Headset.step⟩

end VRAdmin
