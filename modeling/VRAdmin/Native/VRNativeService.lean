import VRAdmin.Binder.IVRNativeService
import VRAdmin.Native.Nodes
import VRAdmin.Native.SystemCall

/-! # The service object of vrserver

`VRNativeService` as an implementation of the binder interface. Its state is the
system it acts on, as far as the seven methods see it; the answers of the kernel
and of the property service are given by a parameter.
-/

namespace VRAdmin

open Foundation

structure VRNativeService (ι β : Type) where
  files : FileSystem ι
  properties : Bytes → Bytes
  mIPostEvent : Option (IVRPostEvent β)

/-- `node` answers the calls on a path, `property_set` gives its status and
`sched_setscheduler` its result with the `errno` it leaves. -/
structure Kernel (ι β : Type) where
  node : VRNativeService ι β → Bytes → NodeIo
  popen : Popen (VRNativeService ι β)
  propertySet : VRNativeService ι β → Bytes → Bytes → Int32
  schedSetscheduler : VRNativeService ι β → Int32 → Int32 → Int32 → Int32 × Int32

section Service

variable {ι β : Type} [DecidableEq ι]

namespace VRNativeService

def setFiles (s : VRNativeService ι β) (files : FileSystem ι) : VRNativeService ι β :=
  { s with files := files }

def setProperties (s : VRNativeService ι β) (key value : Bytes) : VRNativeService ι β :=
  { s with properties := fun k => if k = key then value else s.properties k }

def getProperty (s : VRNativeService ι β) (key value : String8) :
    VRNativeService ι β × Int32 × String8 :=
  let temp := s.properties (cstr key)
  let status := Int32.ofNat temp.length
  if status < 0 then (s, -1, value) else (s, status, temp)

def setProperty (kernel : Kernel ι β) (s : VRNativeService ι β) (key value : String8) :
    VRNativeService ι β × Int32 :=
  let status := kernel.propertySet s (cstr key) (cstr value)
  if status < 0 then (s, -1) else (s.setProperties (cstr key) (cstr value), status)

def setThreadScheduler (kernel : Kernel ι β) (s : VRNativeService ι β) (tid policy pri : Int32) :
    VRNativeService ι β × Int32 :=
  let (ret, errno) := kernel.schedSetscheduler s tid policy pri
  (s, if ret = 0 then 0 else errno * -1)

def setPostEventObj (s : VRNativeService ι β) (iPostEvent : Option (IVRPostEvent β)) :
    VRNativeService ι β × Int32 :=
  ({ s with mIPostEvent := iPostEvent }, 0)

end VRNativeService

def vrNativeService (kernel : Kernel ι β) : IVRNativeService (VRNativeService ι β) β where
  getSystemNode s path value :=
    let r := VRAdmin.getSystemNode s.files (kernel.node s (cstr path)) path value
    (s, r.1, r.2.1)
  setSystemNode s path value :=
    let r := VRAdmin.setSystemNode s.files (kernel.node s (cstr path)) path value
    (s.setFiles r.2.1, r.1)
  systemCall s cmd result := (VRAdmin.systemCall kernel.popen s cmd result).1
  getProperty := VRNativeService.getProperty
  setProperty := VRNativeService.setProperty kernel
  setThreadScheduler := VRNativeService.setThreadScheduler kernel
  setPostEventObj := VRNativeService.setPostEventObj

theorem setSystemNode_state_of_refused (kernel : Kernel ι β) (s : VRNativeService ι β)
    {path : String8} (h : ¬ NodePath (cstr path)) (value : String8) :
    ((vrNativeService kernel).setSystemNode s path value).1 = s := by
  simp only [vrNativeService, setSystemNode_refused h]
  rfl

theorem setProperty_state (kernel : Kernel ι β) (s : VRNativeService ι β) {key value : String8}
    (h : ¬ kernel.propertySet s (cstr key) (cstr value) < 0) :
    ((vrNativeService kernel).setProperty s key value).1 =
      s.setProperties (cstr key) (cstr value) := by
  simp only [vrNativeService, VRNativeService.setProperty, h, if_false]

end Service

end VRAdmin
