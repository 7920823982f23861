import VRAdmin.Binder.Faults
import VRAdmin.Service.JavaText
import VRAdmin.Service.Requests

/-! # The service and vrserver over a binder that fails

The process of `VRAdminService` with the state that its calls reach: it is created,
its clients make their requests, its stub calls its own setters, and a null value
ends it. What `getVRService` gives is an input of each step, since a native method
asks the service manager each time. Over a driver that may drop requests and lose
replies, such a process cannot be told from one whose native methods call the
service object itself, each call once or, if it fails, at most once.
-/

namespace VRAdmin

open Foundation

section Layers

variable {S β M : Type}

/-- `native_setup`, with the reporter that it makes. -/
def nativeSetup (vr : Option (IVRNativeService S β)) (s : S) (reporter : IVRPostEvent β) : S :=
  match vr with
  | none => s
  | some vr => (vr.setPostEventObj s (some reporter)).1

def nativeSetThreadScheduler (vr : Option (IVRNativeService S β)) (s : S)
    (jtid jpolicy jpri : Int32) : S × Int32 :=
  match vr with
  | none => (s, -1)
  | some vr => vr.setThreadScheduler s jtid jpolicy jpri

def VRManager.setThreadScheduler (m : VRManager S β) (s : S) (tid policy pri : Int32) :
    S × Int32 :=
  nativeSetThreadScheduler m.getVRService s tid policy pri

def VRAdminService.setThreadScheduler (mVRService : Option (VRManager S β)) (s : S)
    (tid policy pri : Int32) : S × Int32 :=
  match mVRService with
  | none => (s, -1)
  | some vr => vr.setThreadScheduler s tid policy pri

/-! ## The process -/

/-- `mVRMgr` tells whether the process has its `VRManager`; `mBinder` is the stub of
its latest service object. -/
structure Device (M S : Type) where
  mVRMgr : Bool
  mBinder : Option (VRAdminService M)
  native : S

inductive DeviceAction (M β : Type)
  | onCreate (reporter : IVRPostEvent β)
  | service (i : ServiceInput M)
  | request (bRunning : Bool) (req : AdminRequest)
  | setThreadScheduler (tid policy pri : Int32)

structure DeviceInput (M S β : Type) where
  getVRService : Option (IVRNativeService S β)
  action : DeviceAction M β

/-- What the clients see, and the calls that the stub makes on its own setters with
the results that it ignores. -/
inductive DeviceEvent (M : Type)
  | created (registersSensor : Bool)
  | service (e : ServiceEvent M)
  | applied (e : ServiceEvent M) (result : Int32)
  | answered (req : AdminRequest) (answer : AdminAnswer)
  | scheduled (tid policy pri result : Int32)
  | aborted (req : AdminRequest)

/-- A setter of the stub that an abort leaves without effect. -/
def ownSetter (s : S) (e : ServiceEvent M) : Option (S × Int32) → S × List (DeviceEvent M)
  | some (s', result) => (s', [.applied e result])
  | none => (s, [])

/-- The calls of the stub, made one after the other. -/
def stubCalls (mVRService : Option (VRManager S β)) :
    Machine S (ServiceEvent M) (DeviceEvent M) where
  step s e :=
    match e with
    | .setProperty key value =>
        ownSetter s e (VRAdminService.setProperty mVRService s (some key) (some value))
    | .setSystemNode pathname freq =>
        ownSetter s e (VRAdminService.setSystemNode mVRService s (some pathname) (some freq))
    | e => (s, [.service e])

section Step

variable [DecidableEq M] (newStringUTF : CString → Option JString)

namespace Device

/-- `onCreate`: `getInstance`, then the question for the device. -/
def onCreate (d : Device M S) (vr : Option (IVRNativeService S β)) (reporter : IVRPostEvent β) :
    Device M S × List (DeviceEvent M) :=
  let native := if d.mVRMgr then d.native else nativeSetup vr d.native reporter
  let mgr : VRManager S β := ⟨vr⟩
  match mgr.getProperty newStringUTF native (some (JString.lit "ro.product.device")) with
  | none => (⟨false, none, native⟩, [])
  | some (native, device) =>
      (⟨true, some VRAdminService.start, native⟩,
        [.created (device = some (JString.lit "LeVR_Max_1"))])

def answer (d : Device M S) (vr : Option (IVRNativeService S β)) (bRunning : Bool)
    (req : AdminRequest) : Device M S × List (DeviceEvent M) :=
  match answerRequest newStringUTF (some ⟨vr⟩) bRunning d.native req with
  | none => (⟨false, none, d.native⟩, [.aborted req])
  | some (native, a) => ({ d with native := native }, [.answered req a])

def step (d : Device M S) (i : DeviceInput M S β) : Device M S × List (DeviceEvent M) :=
  match i.action with
  | .onCreate reporter => d.onCreate newStringUTF i.getVRService reporter
  | .service input =>
      match d.mBinder with
      | none => (d, [])
      | some admin =>
          let (admin, events) := adminService.step admin input
          let (native, events) := (stubCalls (some ⟨i.getVRService⟩)).run d.native events
          ({ d with mBinder := some admin, native := native }, events)
  | .request bRunning req =>
      match d.mBinder with
      | none => (d, [])
      | some _ => d.answer newStringUTF i.getVRService bRunning req
  | .setThreadScheduler tid policy pri =>
      match d.mBinder with
      | none => (d, [])
      | some _ =>
          let (native, result) :=
            VRAdminService.setThreadScheduler (some ⟨i.getVRService⟩) d.native tid policy pri
          ({ d with native := native }, [.scheduled tid policy pri result])

end Device

def device : Machine (Device M S) (DeviceInput M S β) (DeviceEvent M) :=
  ⟨Device.step newStringUTF⟩

end Step

/-! ## What the process can see of the service -/

namespace IVRNativeService

/-- The service as it is called with empty out-parameters. -/
def emptied (vr : IVRNativeService S β) : IVRNativeService S β :=
  { vr with
    getSystemNode := fun s path _ => vr.getSystemNode s path []
    systemCall := fun s cmd _ => vr.systemCall s cmd []
    getProperty := fun s key _ => vr.getProperty s key [] }

theorem SameCalls.emptied_eq {vr vr' : IVRNativeService S β} (h : vr.SameCalls vr') :
    vr.emptied = vr'.emptied := by
  have hfor {x y : S × Int32} (hxy : (x.1, x.2, ([] : String8)) = (y.1, y.2, [])) : x = y := by
    obtain ⟨hstate, hrest⟩ := Prod.mk.inj hxy
    exact Prod.ext hstate (congrArg Prod.fst hrest)
  have hnode : vr.emptied.getSystemNode = vr'.emptied.getSystemNode := by
    funext s path _
    exact h s (.getSystemNode path)
  have hsetNode : vr.setSystemNode = vr'.setSystemNode := by
    funext s path value
    exact hfor (h s (.setSystemNode path value))
  have hcall : vr.emptied.systemCall = vr'.emptied.systemCall := by
    funext s cmd _
    exact h s (.systemCall cmd)
  have hprop : vr.emptied.getProperty = vr'.emptied.getProperty := by
    funext s key _
    exact h s (.getProperty key)
  have hsetProp : vr.setProperty = vr'.setProperty := by
    funext s key value
    exact hfor (h s (.setProperty key value))
  have hsched : vr.setThreadScheduler = vr'.setThreadScheduler := by
    funext s tid policy pri
    exact hfor (h s (.setThreadScheduler tid policy pri))
  have hpost : vr.setPostEventObj = vr'.setPostEventObj := by
    funext s obj
    exact hfor (h s (.setPostEventObj obj))
  rw [emptied, emptied, mk.injEq]
  exact ⟨hnode, hsetNode, hcall, hprop, hsetProp, hsched, hpost⟩

end IVRNativeService

variable [DecidableEq M] {newStringUTF : CString → Option JString}

omit [DecidableEq M] in
theorem stubCalls_emptied (vr : Option (IVRNativeService S β)) :
    stubCalls (M := M) (some ⟨vr⟩) =
      stubCalls (some ⟨vr.map IVRNativeService.emptied⟩) := by
  cases vr with
  | none => rfl
  | some vr => rfl

theorem answerRequest_emptied (vr : Option (IVRNativeService S β)) (bRunning : Bool) (s : S)
    (req : AdminRequest) :
    answerRequest newStringUTF (some ⟨vr⟩) bRunning s req =
      answerRequest newStringUTF (some ⟨vr.map IVRNativeService.emptied⟩) bRunning s req := by
  cases vr with
  | none => rfl
  | some vr => cases req <;> rfl

theorem step_emptied (d : Device M S) (vr : Option (IVRNativeService S β))
    (action : DeviceAction M β) :
    d.step newStringUTF ⟨vr, action⟩ =
      d.step newStringUTF ⟨vr.map IVRNativeService.emptied, action⟩ := by
  cases action with
  | onCreate reporter => cases vr <;> rfl
  | service i => simp only [Device.step, stubCalls_emptied vr]
  | request bRunning req => simp only [Device.step, Device.answer, answerRequest_emptied vr]
  | setThreadScheduler tid policy pri => cases vr <;> rfl

theorem step_sameCalls (d : Device M S) {vr vr' : IVRNativeService S β} (h : vr.SameCalls vr')
    (action : DeviceAction M β) :
    d.step newStringUTF ⟨some vr, action⟩ = d.step newStringUTF ⟨some vr', action⟩ := by
  rw [step_emptied, step_emptied d (some vr'), Option.map_some, Option.map_some, h.emptied_eq]

/-! ## Runs over a binder -/

section Binder

variable {P : Type}

/-- In this step the native methods find no service, or the proxy over some driver. -/
def DeviceInput.OverBinder (env : StubEnv P β) (impl : IVRNativeService S β)
    (i : DeviceInput M S β) : Prop :=
  ∀ vr, i.getVRService = some vr →
    ∃ remote, AtMostOnce env impl remote ∧ vr = bpVRNativeService env.ops remote

/-- The step with the service object itself in the place of the proxy. -/
def DeviceInput.direct (impl : IVRNativeService S β) (i : DeviceInput M S β)
    (fate : S → NativeCall β → Fate) : DeviceInput M S β :=
  ⟨i.getVRService.map fun _ => impl.fated fate, i.action⟩

variable {Unread : P → List (ParcelValue β) → Prop} {env : StubEnv P β}
  {impl : IVRNativeService S β}

/-- Whatever the state, a step over the binder is the direct step under one fate. -/
theorem step_direct (newStringUTF : CString → Option JString) (fifo : env.ops.Fifo Unread)
    {i : DeviceInput M S β} (h : i.OverBinder env impl) :
    ∃ fate, ∀ d : Device M S,
      d.step newStringUTF i = d.step newStringUTF (i.direct (impl.received env) fate) := by
  obtain ⟨vr, action⟩ := i
  cases vr with
  | none => exact ⟨fun _ _ => .answered, fun _ => rfl⟩
  | some vr =>
      obtain ⟨remote, hremote, rfl⟩ := h vr rfl
      obtain ⟨fate, hfate⟩ := hremote.sameCalls fifo
      exact ⟨fate, fun d => step_sameCalls d hfate action⟩

/-- A run of the process over a binder that drops requests and loses replies is, state
for state and answer for answer, a run on the service object, in which every call that
is answered was executed once and every failed one at most once. The object gets the
arguments of `setThreadScheduler` as the compiler evaluates them: from left to right,
as they were given. -/
theorem device_direct (newStringUTF : CString → Option JString) (fifo : env.ops.Fifo Unread)
    (inputs : List (DeviceInput M S β)) (h : ∀ i ∈ inputs, i.OverBinder env impl) :
    ∃ fates : List (S → NativeCall β → Fate), fates.length = inputs.length ∧
      (∀ d, (device newStringUTF).run d inputs =
        (device newStringUTF).run d
          (List.zipWith (DeviceInput.direct (impl.received env)) inputs fates)) ∧
      (env.order = Equiv.refl _ → ∀ d, (device newStringUTF).run d inputs =
        (device newStringUTF).run d
          (List.zipWith (DeviceInput.direct impl) inputs fates)) := by
  have hreceived : ∃ fates : List (S → NativeCall β → Fate), fates.length = inputs.length ∧
      ∀ d, (device newStringUTF).run d inputs =
        (device newStringUTF).run d
          (List.zipWith (DeviceInput.direct (impl.received env)) inputs fates) := by
    induction inputs with
    | nil => exact ⟨[], rfl, fun _ => rfl⟩
    | cons i rest ih =>
        obtain ⟨fate, hstep⟩ := step_direct newStringUTF fifo (h i (by simp))
        obtain ⟨fates, hlen, hrest⟩ := ih fun j hj => h j (List.mem_cons_of_mem i hj)
        refine ⟨fate :: fates, by simp [hlen], fun d => ?_⟩
        have hfirst : (device newStringUTF).step d i =
            (device newStringUTF).step d (i.direct (impl.received env) fate) := hstep d
        rw [List.zipWith_cons_cons, Machine.run_cons, Machine.run_cons, hrest, hfirst]
  obtain ⟨fates, hlen, hrun⟩ := hreceived
  refine ⟨fates, hlen, hrun, fun horder d => ?_⟩
  rw [hrun d, impl.received_leftToRight horder]

end Binder

end Layers

/-- The stub of a compiler that evaluates arguments from right to left. -/
def rightToLeft : StubEnv (List (ParcelValue Unit)) Unit :=
  { listStub with order := Fin.revPerm }

/-- The reply to the write of a property is lost, a scheduler is set, and then the
service is gone: with the arguments as given from left to right, and with `pri` in the
place of `tid` from right to left. -/
theorem device_direct_lost :
    let lossy (env : StubEnv (List (ParcelValue Unit)) Unit) :=
      faulty env (vrNativeService quietKernel) (fun _ => false)
        (fun code => code == VRACTION_SETATTR) (-32)
    let inputs (env : StubEnv (List (ParcelValue Unit)) Unit) :
        List (DeviceInput Nat (VRNativeService Unit Unit) Unit) :=
      [⟨some (bpVRNativeService env.ops (lossy env)), .onCreate ⟨()⟩⟩,
        ⟨some (bpVRNativeService env.ops (lossy env)), .service .activityEnter⟩,
        ⟨some (bpVRNativeService env.ops (lossy env)), .setThreadScheduler 1 2 3⟩,
        ⟨none, .setThreadScheduler 1 2 3⟩]
    (∃ fates : List (VRNativeService Unit Unit → NativeCall Unit → Fate),
      fates.length = 4 ∧ ∀ d, (device JString.newStringUTF).run d (inputs listStub) =
        (device JString.newStringUTF).run d
          (List.zipWith (DeviceInput.direct (vrNativeService quietKernel))
            (inputs listStub) fates)) ∧
    ∃ fates : List (VRNativeService Unit Unit → NativeCall Unit → Fate),
      fates.length = 4 ∧ ∀ d, (device JString.newStringUTF).run d (inputs rightToLeft) =
        (device JString.newStringUTF).run d
          (List.zipWith (DeviceInput.direct ((vrNativeService quietKernel).received rightToLeft))
            (inputs rightToLeft) fates) := by
  intro lossy inputs
  have herror : (-32 : Int32) < 0 := by decide
  have hlossy (env) : AtMostOnce env (vrNativeService quietKernel) (lossy env) :=
    faulty_atMostOnce env _ _ _ herror
  have hover (env) : ∀ i ∈ inputs env, i.OverBinder env (vrNativeService quietKernel) := by
    intro i hi vr hvr
    simp only [inputs, List.mem_cons, List.not_mem_nil, or_false] at hi
    rcases hi with rfl | rfl | rfl | rfl
    · exact ⟨lossy env, hlossy env, (Option.some.inj hvr).symm⟩
    · exact ⟨lossy env, hlossy env, (Option.some.inj hvr).symm⟩
    · exact ⟨lossy env, hlossy env, (Option.some.inj hvr).symm⟩
    · cases hvr
  obtain ⟨fates, hlen, -, hgiven⟩ := device_direct JString.newStringUTF (listParcel_fifo Unit)
    (inputs listStub) (hover listStub)
  obtain ⟨fates', hlen', hreceived, -⟩ := device_direct JString.newStringUTF
    (listParcel_fifo Unit) (inputs rightToLeft) (hover rightToLeft)
  exact ⟨⟨fates, hlen, hgiven rfl⟩, fates', hlen', hreceived⟩

end VRAdmin
