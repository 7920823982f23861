import Mathlib.Data.Fin.Basic
import Mathlib.Data.Fin.VecNotation
import Mathlib.Logic.Equiv.Defs
import VRAdmin.Foundation.Parcel
import VRAdmin.Native.Permission

/-! # The binder interface of vrserver

The seven methods of `IVRNativeService`, the proxy that marshals a call into a
parcel and the stub that decodes it again. An implementation passes its state
`S`; a `String8 &` parameter is passed in and given back.
-/

namespace VRAdmin

open Foundation

/-- An `IVRPostEvent` object, known by its binder. -/
structure IVRPostEvent (β : Type) where
  binder : β
deriving DecidableEq

namespace IVRPostEvent

variable {β : Type}

/-- `IInterface::asBinder`; null stays null. -/
def asBinder (obj : Option (IVRPostEvent β)) : Option β := obj.map binder

/-- `interface_cast<IVRPostEvent>`. -/
def interfaceCast (b : Option β) : Option (IVRPostEvent β) := b.map IVRPostEvent.mk

@[simp] theorem interfaceCast_asBinder (obj : Option (IVRPostEvent β)) :
    interfaceCast (asBinder obj) = obj := by
  cases obj <;> rfl

end IVRPostEvent

structure IVRNativeService (S β : Type) where
  getSystemNode : S → String8 → String8 → S × Int32 × String8
  setSystemNode : S → String8 → String8 → S × Int32
  systemCall : S → String8 → String8 → S × Int32 × String8
  getProperty : S → String8 → String8 → S × Int32 × String8
  setProperty : S → String8 → String8 → S × Int32
  setThreadScheduler : S → Int32 → Int32 → Int32 → S × Int32
  setPostEventObj : S → Option (IVRPostEvent β) → S × Int32

/-- `SERVER_PACK_NAME`, the interface descriptor. -/
def interfaceDescriptor : Bytes := ascii "com.android.VRAdmin.IVRNativeService"

def FIRST_CALL_TRANSACTION : UInt32 := 1

def VRACTION_GETNODE : UInt32 := FIRST_CALL_TRANSACTION
def VRACTION_SETNODE : UInt32 := FIRST_CALL_TRANSACTION + 1
def VRACTION_SYSCALL : UInt32 := FIRST_CALL_TRANSACTION + 2
def VRACTION_GETATTR : UInt32 := FIRST_CALL_TRANSACTION + 3
def VRACTION_SETATTR : UInt32 := FIRST_CALL_TRANSACTION + 4
def VRACTION_SETSCHED : UInt32 := FIRST_CALL_TRANSACTION + 5
def VRACTION_SETPOSTEVENTOBJ : UInt32 := FIRST_CALL_TRANSACTION + 6

/-- `PERMISSION_DENIED`, what `CHECK_INTERFACE` returns on another token. -/
def PERMISSION_DENIED : Int32 := -1

section Marshalling

variable {S P β : Type}

/-- `remote()->transact(code, data, &reply)`: the state afterwards, the status and
the reply. -/
abbrev Transact (S P : Type) := S → UInt32 → P → S × Int32 × P

/-! ## The proxy -/

namespace BpVRNativeService

variable (ops : ParcelOps P β) (remote : Transact S P)

/-- One string goes out, a string and a result come back. -/
def callOut (code : UInt32) (s : S) (arg out : String8) : S × Int32 × String8 :=
  let data := ops.writeString8 (ops.writeInterfaceToken ops.fresh interfaceDescriptor) arg
  let (s', status, reply) := remote s code data
  if status ≠ 0 then (s', status, out)
  else
    let (text, reply) := ops.readString8 reply
    (s', (ops.readInt32 reply).1, text)

/-- A request whose reply is only a result. -/
def callFor (code : UInt32) (s : S) (data : P) : S × Int32 :=
  let (s', status, reply) := remote s code data
  if status ≠ 0 then (s', status) else (s', (ops.readInt32 reply).1)

/-- Two strings go out, a result comes back. -/
def callSet (code : UInt32) (s : S) (first second : String8) : S × Int32 :=
  let data := ops.writeInterfaceToken ops.fresh interfaceDescriptor
  callFor ops remote code s (ops.writeString8 (ops.writeString8 data first) second)

def getSystemNode : S → String8 → String8 → S × Int32 × String8 :=
  callOut ops remote VRACTION_GETNODE

def setSystemNode : S → String8 → String8 → S × Int32 := callSet ops remote VRACTION_SETNODE

def systemCall : S → String8 → String8 → S × Int32 × String8 :=
  callOut ops remote VRACTION_SYSCALL

def getProperty : S → String8 → String8 → S × Int32 × String8 :=
  callOut ops remote VRACTION_GETATTR

def setProperty : S → String8 → String8 → S × Int32 := callSet ops remote VRACTION_SETATTR

def setThreadScheduler (s : S) (tid policy pri : Int32) : S × Int32 :=
  let data := ops.writeInterfaceToken ops.fresh interfaceDescriptor
  callFor ops remote VRACTION_SETSCHED s
    (ops.writeInt32 (ops.writeInt32 (ops.writeInt32 data tid) policy) pri)

def setPostEventObj (s : S) (iPostEvent : Option (IVRPostEvent β)) : S × Int32 :=
  let data := ops.writeInterfaceToken ops.fresh interfaceDescriptor
  callFor ops remote VRACTION_SETPOSTEVENTOBJ s
    (ops.writeStrongBinder data (IVRPostEvent.asBinder iPostEvent))

end BpVRNativeService

/-- The proxy as an implementation of the interface. -/
def bpVRNativeService (ops : ParcelOps P β) (remote : Transact S P) : IVRNativeService S β where
  getSystemNode := BpVRNativeService.getSystemNode ops remote
  setSystemNode := BpVRNativeService.setSystemNode ops remote
  systemCall := BpVRNativeService.systemCall ops remote
  getProperty := BpVRNativeService.getProperty ops remote
  setProperty := BpVRNativeService.setProperty ops remote
  setThreadScheduler := BpVRNativeService.setThreadScheduler ops remote
  setPostEventObj := BpVRNativeService.setPostEventObj ops remote

/-! ## The stub -/

/-- What the stub is built with: the parcels, `BBinder::onTransact` for the other
codes, and the moment at which each argument of `setThreadScheduler` is evaluated. -/
structure StubEnv (P β : Type) where
  ops : ParcelOps P β
  bbinder : UInt32 → P → P → UInt32 → Int32 × P
  order : Equiv.Perm (Fin 3)

/-- Three arguments, of which number `i` gets the value read at the moment `order i`. -/
def inOrder (order : Equiv.Perm (Fin 3)) (reads : Fin 3 → Int32) : Int32 × Int32 × Int32 :=
  (reads (order 0), reads (order 1), reads (order 2))

namespace BnVRNativeService

variable (env : StubEnv P β) (impl : IVRNativeService S β)

/-- `CHECK_INTERFACE` before the decoding of a request. -/
def checked (s : S) (data reply : P) (decode : P → S × Int32 × P) : S × Int32 × P :=
  let (ok, data) := env.ops.checkInterface data interfaceDescriptor
  if ok then decode data else (s, PERMISSION_DENIED, reply)

def answerOut (method : S → String8 → String8 → S × Int32 × String8) (s : S) (data reply : P) :
    S × Int32 × P :=
  let (arg, _) := env.ops.readString8 data
  let (s', ret, value) := method s arg []
  (s', 0, env.ops.writeInt32 (env.ops.writeString8 reply value) ret)

def answerSet (method : S → String8 → String8 → S × Int32) (s : S) (data reply : P) :
    S × Int32 × P :=
  let (first, data) := env.ops.readString8 data
  let (second, _) := env.ops.readString8 data
  let (s', ret) := method s first second
  (s', 0, env.ops.writeInt32 reply ret)

/-- The values of three `readInt32` calls in the order in which they are made. -/
def readThree (data : P) : Fin 3 → Int32 :=
  let (first, data) := env.ops.readInt32 data
  let (second, data) := env.ops.readInt32 data
  ![first, second, (env.ops.readInt32 data).1]

def answerSched (s : S) (data reply : P) : S × Int32 × P :=
  let (tid, policy, pri) := inOrder env.order (readThree env data)
  let (s', ret) := impl.setThreadScheduler s tid policy pri
  (s', 0, env.ops.writeInt32 reply ret)

def answerPostEventObj (s : S) (data reply : P) : S × Int32 × P :=
  let ipost := IVRPostEvent.interfaceCast (env.ops.readStrongBinder data).1
  let (s', ret) := impl.setPostEventObj s ipost
  (s', 0, env.ops.writeInt32 reply ret)

def onTransact (s : S) (code : UInt32) (data reply : P) (flags : UInt32) : S × Int32 × P :=
  if code = VRACTION_GETNODE then
    checked env s data reply fun data => answerOut env impl.getSystemNode s data reply
  else if code = VRACTION_SETNODE then
    checked env s data reply fun data => answerSet env impl.setSystemNode s data reply
  else if code = VRACTION_SYSCALL then
    checked env s data reply fun data => answerOut env impl.systemCall s data reply
  else if code = VRACTION_GETATTR then
    checked env s data reply fun data => answerOut env impl.getProperty s data reply
  else if code = VRACTION_SETATTR then
    checked env s data reply fun data => answerSet env impl.setProperty s data reply
  else if code = VRACTION_SETSCHED then
    checked env s data reply fun data => answerSched env impl s data reply
  else if code = VRACTION_SETPOSTEVENTOBJ then
    checked env s data reply fun data => answerPostEventObj env impl s data reply
  else (s, env.bbinder code data reply flags)

end BnVRNativeService

/-- A transaction that reports success is one run of the receiver's `onTransact`
on the carried request, and its reply is carried back. -/
def Delivers (env : StubEnv P β) (impl : IVRNativeService S β) (remote : Transact S P) : Prop :=
  ∀ s code data, (remote s code data).2.1 = 0 →
    let answer := BnVRNativeService.onTransact env impl s code (env.ops.carry data) env.ops.fresh 0
    remote s code data = (answer.1, answer.2.1, env.ops.carry answer.2.2)

end Marshalling

end VRAdmin
