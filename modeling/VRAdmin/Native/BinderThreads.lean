import Mathlib.Logic.Function.Basic
import VRAdmin.Binder.RemoteCall
import VRAdmin.Foundation.Linearization
import VRAdmin.Foundation.Machine
import VRAdmin.Native.VRNativeService

/-! # The thread pool of vrserver

`startThreadPool` lets any number of calls of the one `VRNativeService` run at the same
time. A call here takes a step for each of its system calls, for `mLock` and for each
line of a command's output, and between its steps the other calls and other processes
take theirs. Every history of calls is linearizable: the object that all the layers
above take calls of one by one gives the same answers.
-/

namespace VRAdmin

open Foundation

/-- What overlaps: calls of the service, and writes of other processes. -/
inductive NativeOperation (ι β : Type)
  | call (c : NativeCall β)
  | changed (content : ι → Bytes) (properties : Bytes → Bytes)

/-- Where a call is. `write` is what a call that sets is to write. -/
inductive CallStage (ι β : Type)
  | absent
  | entered (c : NativeCall β)
  /-- `access` has found the path, and it is in the white list. -/
  | permitted (path : String8) (write : Option String8)
  | opened (path : String8) (write : Option String8) (fd : ι)
  /-- The loop over the lines of a command. -/
  | collecting (stream : Bytes) (sum : Int32) (result : String8)
  /-- A property call has locked `mLock`. -/
  | locked (key : String8) (write : Option String8)
  | unlocking (r : Int32 × String8)
  | leaving (r : Int32 × String8)
  | returned

structure BinderThreads (ι β : Type) where
  service : VRNativeService ι β
  mLock : Option Nat
  begun : Nat
  stage : Nat → CallStage ι β

/-- The kernel may answer each step of a call in another way. -/
inductive PoolInput (ι β : Type)
  | begin (c : NativeCall β)
  | step (op : Nat) (kernel : Kernel ι β)
  | changed (content : ι → Bytes) (properties : Bytes → Bytes)

abbrev PoolEvent (ι β : Type) := HistoryEvent (NativeOperation ι β) (Int32 × String8)

section Model

variable {ι β : Type} [DecidableEq ι]

def VRNativeService.changed (s : VRNativeService ι β) (content : ι → Bytes)
    (properties : Bytes → Bytes) : VRNativeService ι β :=
  { s with files := { s.files with content := content }, properties := properties }

namespace BinderThreads

def idle (service : VRNativeService ι β) : BinderThreads ι β :=
  ⟨service, none, 0, fun _ => .absent⟩

def move (s : BinderThreads ι β) (op : Nat) (st : CallStage ι β) : BinderThreads ι β :=
  { s with stage := Function.update s.stage op st }

/-- A step that takes effect on the service. -/
def effect (s : BinderThreads ι β) (op : Nat) (service : VRNativeService ι β)
    (st : CallStage ι β) : BinderThreads ι β :=
  { s.move op st with service := service }

/-- `access`, and the check of the path. -/
def accessNode (s : BinderThreads ι β) (op : Nat) (path : String8) (write : Option String8) :
    BinderThreads ι β :=
  if s.service.files.lookup (cstr path) = none then s.move op (.leaving (ERR_NOFOUND, []))
  else if !checkAccessNodePerm (some path) then s.move op (.leaving (ERR_PERM, []))
  else s.move op (.permitted path write)

def openNode (kernel : Kernel ι β) (s : BinderThreads ι β) (op : Nat) (path : String8)
    (write : Option String8) : BinderThreads ι β :=
  match s.service.files.openFile (kernel.node s.service (cstr path)) (cstr path) with
  | none => s.move op (.leaving (ERR_PERM, []))
  | some fd => s.move op (.opened path write fd)

/-- `read` or `write` on the descriptor. -/
def moveBytes (kernel : Kernel ι β) (s : BinderThreads ι β) (op : Nat) (path : String8)
    (write : Option String8) (fd : ι) : BinderThreads ι β :=
  let io := kernel.node s.service (cstr path)
  match io.moved, write with
  | none, _ => s.move op (.leaving (ERR_RDWR, []))
  | some n, none =>
      s.move op (.leaving
        (NO_ERROR, cstr (tempAfterRead (s.service.files.content fd) n ++ io.behind)))
  | some n, some value =>
      s.effect op (s.service.setFiles (s.service.files.write fd (value.take n)))
        (.leaving (NO_ERROR, []))

def popen (kernel : Kernel ι β) (s : BinderThreads ι β) (op : Nat) (cmd : String8) :
    BinderThreads ι β :=
  if !checkSyscallPerm (some cmd) then s.move op (.leaving (-1, []))
  else
    match kernel.popen s.service (cstr cmd) with
    | (service, none) => s.effect op service (.leaving (-1, []))
    | (service, some stream) => s.effect op service (.collecting stream 0 [])

def lock (s : BinderThreads ι β) (op : Nat) (key : String8) (write : Option String8) :
    BinderThreads ι β :=
  if s.mLock.isNone then { s.move op (.locked key write) with mLock := some op } else s

/-- The first step of a method. -/
def enter (kernel : Kernel ι β) (s : BinderThreads ι β) (op : Nat) :
    NativeCall β → BinderThreads ι β
  | .getSystemNode path => s.accessNode op path none
  | .setSystemNode path value => s.accessNode op path (some value)
  | .systemCall cmd => s.popen kernel op cmd
  | .getProperty key => s.lock op key none
  | .setProperty key value => s.lock op key (some value)
  | .setThreadScheduler tid policy pri =>
      let r := s.service.setThreadScheduler kernel tid policy pri
      s.effect op r.1 (.leaving (r.2, []))
  | .setPostEventObj obj =>
      let r := s.service.setPostEventObj obj
      s.effect op r.1 (.leaving (r.2, []))

/-- The step of a property call that holds `mLock`. -/
def property (kernel : Kernel ι β) (s : BinderThreads ι β) (op : Nat) (key : String8) :
    Option String8 → BinderThreads ι β
  | none =>
      let r := s.service.getProperty key []
      s.effect op r.1 (.unlocking r.2)
  | some value =>
      let r := s.service.setProperty kernel key value
      s.effect op r.1 (.unlocking (r.2, []))

def call (kernel : Kernel ι β) (s : BinderThreads ι β) (op : Nat) :
    BinderThreads ι β × List (PoolEvent ι β) :=
  match s.stage op with
  | .absent => (s, [])
  | .entered c => (s.enter kernel op c, [])
  | .permitted path write => (s.openNode kernel op path write, [])
  | .opened path write fd => (s.moveBytes kernel op path write fd, [])
  | .collecting stream sum result =>
      match fgets 1024 stream with
      | none => (s.move op (.leaving (sum, result)), [])
      | some (line, rest) =>
          let text := cstr line
          (s.move op
            (.collecting rest (sum + Int32.ofNat text.length) (result ++ text)), [])
  | .locked key write => (s.property kernel op key write, [])
  | .unlocking r => ({ s.move op (.leaving r) with mLock := none }, [])
  | .leaving r => (s.move op .returned, [.returned op r])
  | .returned => (s, [])

def step (s : BinderThreads ι β) : PoolInput ι β → BinderThreads ι β × List (PoolEvent ι β)
  | .begin c =>
      ({ s.move s.begun (.entered c) with begun := s.begun + 1 },
        [.invoked s.begun (.call c)])
  | .step op kernel => s.call kernel op
  | .changed content properties =>
      ({ s.effect s.begun (s.service.changed content properties) .returned with
          begun := s.begun + 1 },
        [.invoked s.begun (.changed content properties), .returned s.begun (0, [])])

end BinderThreads

def binderThreads : Machine (BinderThreads ι β) (PoolInput ι β) (PoolEvent ι β) :=
  ⟨BinderThreads.step⟩

/-- No command creates, removes or renames a file. -/
def PoolInput.KeepsNames (s : BinderThreads ι β) (_log : List (PoolEvent ι β)) :
    PoolInput ι β → Prop
  | .step _ kernel => ∀ line, (kernel.popen s.service line).1.files.lookup = s.service.files.lookup
  | _ => True

/-- The service taking its calls one by one, whatever the kernel answers. -/
def OneByOne (s : VRNativeService ι β) : NativeOperation ι β → Int32 × String8 →
    VRNativeService ι β → Prop
  | .call c, r, s' => ∃ kernel, (vrNativeService kernel).invoke s [] c = (s', r)
  | .changed content properties, r, s' => s' = s.changed content properties ∧ r = (0, [])

/-! ## System calls and the methods -/

/-- `getSystemNode`, or `setSystemNode` with what is to be written. -/
def nodeCall (path : String8) : Option String8 → NativeCall β
  | none => .getSystemNode path
  | some value => .setSystemNode path value

def propertyCall (key : String8) : Option String8 → NativeCall β
  | none => .getProperty key
  | some value => .setProperty key value

section Methods

variable {kernel : Kernel ι β} {s : VRNativeService ι β} {path : String8} {write : Option String8}

theorem node_missing (hnone : s.files.lookup (cstr path) = none) :
    (vrNativeService kernel).invoke s [] (nodeCall path write) = (s, ERR_NOFOUND, []) := by
  cases write with
  | none => simp [nodeCall, IVRNativeService.invoke, vrNativeService, getSystemNode, hnone]
  | some value =>
      simp [nodeCall, IVRNativeService.invoke, vrNativeService, setSystemNode, hnone,
        VRNativeService.setFiles]

theorem node_refused (hsome : s.files.lookup (cstr path) ≠ none)
    (hperm : checkAccessNodePerm (some path) = false) :
    (vrNativeService kernel).invoke s [] (nodeCall path write) = (s, ERR_PERM, []) := by
  cases write with
  | none => simp [nodeCall, IVRNativeService.invoke, vrNativeService, getSystemNode, hsome, hperm]
  | some value =>
      simp [nodeCall, IVRNativeService.invoke, vrNativeService, setSystemNode, hsome, hperm,
        VRNativeService.setFiles]

theorem node_unopened (hsome : s.files.lookup (cstr path) ≠ none)
    (hperm : checkAccessNodePerm (some path) = true)
    (hopen : s.files.openFile (kernel.node s (cstr path)) (cstr path) = none) :
    (vrNativeService kernel).invoke s [] (nodeCall path write) = (s, ERR_PERM, []) := by
  cases write with
  | none =>
      simp [nodeCall, IVRNativeService.invoke, vrNativeService, getSystemNode, hsome, hperm, hopen]
  | some value =>
      simp [nodeCall, IVRNativeService.invoke, vrNativeService, setSystemNode, hsome, hperm, hopen,
        VRNativeService.setFiles]

/-- The same answers, but `open` succeeds. -/
def Kernel.opening (kernel : Kernel ι β) : Kernel ι β :=
  { kernel with node := fun s path => { kernel.node s path with opens := true } }

variable {fd : ι}

theorem node_failed (hfd : s.files.lookup (cstr path) = some fd)
    (hperm : checkAccessNodePerm (some path) = true)
    (hmoved : (kernel.node s (cstr path)).moved = none) :
    (vrNativeService kernel.opening).invoke s [] (nodeCall path write) = (s, ERR_RDWR, []) := by
  cases write with
  | none =>
      simp [nodeCall, IVRNativeService.invoke, vrNativeService, getSystemNode, hfd, hperm, hmoved,
        Kernel.opening, FileSystem.openFile]
  | some value =>
      simp [nodeCall, IVRNativeService.invoke, vrNativeService, setSystemNode, hfd, hperm, hmoved,
        Kernel.opening, FileSystem.openFile, VRNativeService.setFiles]

theorem node_read (hfd : s.files.lookup (cstr path) = some fd)
    (hperm : checkAccessNodePerm (some path) = true) {n : Nat}
    (hmoved : (kernel.node s (cstr path)).moved = some n) :
    (vrNativeService kernel.opening).invoke s [] (.getSystemNode path) =
      (s, NO_ERROR,
        cstr (tempAfterRead (s.files.content fd) n ++ (kernel.node s (cstr path)).behind)) := by
  simp [IVRNativeService.invoke, vrNativeService, getSystemNode, hfd, hperm, hmoved,
    Kernel.opening, FileSystem.openFile]

theorem node_written (hfd : s.files.lookup (cstr path) = some fd)
    (hperm : checkAccessNodePerm (some path) = true) {n : Nat}
    (hmoved : (kernel.node s (cstr path)).moved = some n) (value : String8) :
    (vrNativeService kernel.opening).invoke s [] (.setSystemNode path value) =
      (s.setFiles (s.files.write fd (value.take n)), NO_ERROR, []) := by
  simp [IVRNativeService.invoke, vrNativeService, setSystemNode, hfd, hperm, hmoved,
    Kernel.opening, FileSystem.openFile]

end Methods

/-! ## What a call has yet to do -/

namespace CallStage

omit [DecidableEq ι]

/-- The call that has yet to take effect. -/
def pending : CallStage ι β → Option (NativeCall β)
  | .entered c => some c
  | .permitted path write => some (nodeCall path write)
  | .opened path write _ => some (nodeCall path write)
  | .locked key write => some (propertyCall key write)
  | _ => none

/-- What the call has yet to answer. -/
def answer : CallStage ι β → Option (Int32 × String8)
  | .collecting stream sum result => some (readLines stream result sum)
  | .unlocking r => some r
  | .leaving r => some r
  | _ => none

/-- What earlier system calls have found still holds. -/
def Valid (lookup : Bytes → Option ι) : CallStage ι β → Prop
  | .permitted path _ => lookup (cstr path) ≠ none ∧ checkAccessNodePerm (some path) = true
  | .opened path _ fd => lookup (cstr path) = some fd ∧ checkAccessNodePerm (some path) = true
  | _ => True

theorem valid_of_answer {st : CallStage ι β} {r : Int32 × String8} (h : st.answer = some r)
    (lookup : Bytes → Option ι) : st.Valid lookup := by
  cases st with
  | permitted path write => exact absurd h (by simp [answer])
  | opened path write fd => exact absurd h (by simp [answer])
  | _ => trivial

theorem pending_of_answer {st : CallStage ι β} {r : Int32 × String8} (h : st.answer = some r) :
    st.pending = none := by
  cases st with
  | collecting stream sum result => rfl
  | unlocking r => rfl
  | leaving r => rfl
  | _ => exact absurd h (by simp [answer])

end CallStage

/-- An order of the calls is known; a call that has not returned either has no place in
it or has the one with its answer. -/
structure Pooled (s₀ : VRNativeService ι β) (s : BinderThreads ι β) (log : List (PoolEvent ι β))
    (points : List (Point (NativeOperation ι β) (Int32 × String8))) : Prop where
  history : WellFormed log
  linear : Linearization OneByOne s₀ s.service log points
  begun : ∀ op c, .invoked op c ∈ log → op < s.begun
  ended : ∀ op r, .returned op r ∈ log → s.stage op = .returned
  pending : ∀ op c, (s.stage op).pending = some c →
    .invoked op (.call c) ∈ log ∧ op ∉ points.map Point.op
  answer : ∀ op r, (s.stage op).answer = some r → ∃ p ∈ points, p.op = op ∧ p.result = r
  valid : ∀ op, (s.stage op).Valid s.service.files.lookup

namespace Pooled

variable {s₀ : VRNativeService ι β} {s : BinderThreads ι β} {log : List (PoolEvent ι β)}
  {points : List (Point (NativeOperation ι β) (Int32 × String8))} {op : Nat}

theorem idle (s₀ : VRNativeService ι β) : Pooled s₀ (BinderThreads.idle s₀) [] [] where
  history := WellFormed.nil
  linear := Linearization.nil OneByOne s₀
  begun := by simp
  ended := by simp
  pending op c hc := absurd hc (by simp [BinderThreads.idle, CallStage.pending])
  answer op r hr := absurd hr (by simp [BinderThreads.idle, CallStage.answer])
  valid _ := trivial

/-- A step of a call that neither takes effect nor returns. -/
theorem quiet (h : Pooled s₀ s log points) {st : CallStage ι β} {mLock : Option Nat}
    (hlive : s.stage op ≠ .returned) (hpending : st.pending = (s.stage op).pending)
    (hanswer : st.answer = (s.stage op).answer) (hvalid : st.Valid s.service.files.lookup) :
    Pooled s₀ ⟨s.service, mLock, s.begun, Function.update s.stage op st⟩ log points where
  history := h.history
  linear := h.linear
  begun := h.begun
  ended o r hr := by
    have hold := h.ended o r hr
    by_cases ho : o = op
    · exact absurd (ho ▸ hold) hlive
    · simpa [ho] using hold
  pending o c hc := by
    by_cases ho : o = op
    · subst ho
      exact h.pending o c (hpending ▸ by simpa using hc)
    · exact h.pending o c (by simpa [ho] using hc)
  answer o r hr := by
    by_cases ho : o = op
    · subst ho
      exact h.answer o r (hanswer ▸ by simpa using hr)
    · exact h.answer o r (by simpa [ho] using hr)
  valid o := by
    by_cases ho : o = op
    · subst ho
      simpa using hvalid
    · simpa [ho] using h.valid o

/-- The step in which a call takes effect. -/
theorem effect (h : Pooled s₀ s log points) {st : CallStage ι β} {mLock : Option Nat}
    {c : NativeCall β} {r : Int32 × String8} {service : VRNativeService ι β}
    (hc : (s.stage op).pending = some c) (hspec : OneByOne s.service (.call c) r service)
    (hnames : service.files.lookup = s.service.files.lookup) (hanswer : st.answer = some r) :
    Pooled s₀ ⟨service, mLock, s.begun, Function.update s.stage op st⟩ log
      (points ++ [⟨op, .call c, r⟩]) where
  history := h.history
  linear := by
    obtain ⟨hcall, hop⟩ := h.pending op c hc
    exact h.linear.takeEffect hcall hop hspec
  begun := h.begun
  ended o r hr := by
    have hold := h.ended o r hr
    by_cases ho : o = op
    · rw [ho] at hold
      rw [hold] at hc
      exact absurd hc (by simp [CallStage.pending])
    · simpa [ho] using hold
  pending o d hd := by
    by_cases ho : o = op
    · subst ho
      have hnone := CallStage.pending_of_answer hanswer
      exact absurd hd (by simp [hnone])
    · obtain ⟨hcall, hop⟩ := h.pending o d (by simpa [ho] using hd)
      exact ⟨hcall, by simpa [ho] using hop⟩
  answer o q hq := by
    by_cases ho : o = op
    · subst ho
      have hqr : r = q := Option.some.inj (hanswer.symm.trans (by simpa using hq))
      exact ⟨_, List.mem_append_right _ (List.mem_singleton_self _), rfl, hqr⟩
    · obtain ⟨p, hp, hown⟩ := h.answer o q (by simpa [ho] using hq)
      exact ⟨p, List.mem_append_left _ hp, hown⟩
  valid o := by
    show (Function.update s.stage op st o).Valid service.files.lookup
    rw [hnames]
    by_cases ho : o = op
    · subst ho
      simpa using CallStage.valid_of_answer hanswer s.service.files.lookup
    · simpa [ho] using h.valid o

theorem fresh (h : Pooled s₀ s log points) : s.begun ∉ points.map Point.op := by
  intro hmem
  obtain ⟨p, hp, hop⟩ := List.mem_map.mp hmem
  exact absurd (h.begun p.op p.call (h.linear.invoked p hp)) (by omega)

theorem not_begun (h : Pooled s₀ s log points) (c : NativeOperation ι β) :
    .invoked s.begun c ∉ log :=
  fun hmem => absurd (h.begun s.begun c hmem) (Nat.lt_irrefl _)

theorem not_fresh_of_returned (h : Pooled s₀ s log points) {r : Int32 × String8}
    (hr : .returned op r ∈ log) : op ≠ s.begun := by
  obtain ⟨p, hp, hop, -⟩ := h.linear.returned op r hr
  have hlt := h.begun p.op p.call (h.linear.invoked p hp)
  omega

theorem begin (h : Pooled s₀ s log points) (c : NativeCall β) :
    Pooled s₀ ⟨s.service, s.mLock, s.begun + 1, Function.update s.stage s.begun (.entered c)⟩
      (log ++ [.invoked s.begun (.call c)]) points where
  history := h.history.invoke h.not_begun
  linear := h.linear.invoke h.not_begun
  begun o d hd := by
    rcases List.mem_append.mp hd with hold | hd
    · exact Nat.lt_succ_of_lt (h.begun o d hold)
    · obtain ⟨rfl, -⟩ := HistoryEvent.invoked.inj (List.mem_singleton.mp hd)
      exact Nat.lt_succ_self s.begun
  ended o r hr := by
    rcases List.mem_append.mp hr with hold | hr
    · simpa [h.not_fresh_of_returned hold] using h.ended o r hold
    · exact absurd (List.mem_singleton.mp hr) (by simp)
  pending o d hd := by
    by_cases ho : o = s.begun
    · subst ho
      obtain rfl : c = d := by simpa [CallStage.pending] using hd
      exact ⟨List.mem_append_right _ (List.mem_singleton_self _), h.fresh⟩
    · obtain ⟨hcall, hop⟩ := h.pending o d (by simpa [ho] using hd)
      exact ⟨List.mem_append_left _ hcall, hop⟩
  answer o r hr := by
    by_cases ho : o = s.begun
    · subst ho
      exact absurd hr (by simp [CallStage.answer])
    · exact h.answer o r (by simpa [ho] using hr)
  valid o := by
    by_cases ho : o = s.begun
    · subst ho
      simp [CallStage.Valid]
    · simpa [ho] using h.valid o

theorem finish (h : Pooled s₀ s log points) {r : Int32 × String8} (hst : s.stage op = .leaving r) :
    Pooled s₀ (s.move op .returned) (log ++ [.returned op r]) points := by
  obtain ⟨p, hp, hop, hresult⟩ := h.answer op r (by rw [hst]; rfl)
  have hcall : .invoked op p.call ∈ log := hop ▸ h.linear.invoked p hp
  have hnot (q : Int32 × String8) : .returned op q ∉ log := by
    intro hmem
    exact absurd (hst.symm.trans (h.ended op q hmem)) (by simp)
  refine ⟨h.history.finish hcall hnot, h.linear.finish hp hop hresult, fun o c hc => ?_,
    fun o q hq => ?_, fun o c hc => ?_, fun o q hq => ?_, fun o => ?_⟩
  · rcases List.mem_append.mp hc with hold | hc
    · exact h.begun o c hold
    · exact absurd (List.mem_singleton.mp hc) (by simp)
  · by_cases ho : o = op
    · subst ho
      simp [BinderThreads.move]
    · rcases List.mem_append.mp hq with hold | hq
      · simpa [BinderThreads.move, ho] using h.ended o q hold
      · exact absurd (HistoryEvent.returned.inj (List.mem_singleton.mp hq)).1 ho
  · by_cases ho : o = op
    · subst ho
      exact absurd hc (by simp [BinderThreads.move, CallStage.pending])
    · obtain ⟨hcall, hpoint⟩ := h.pending o c (by simpa [BinderThreads.move, ho] using hc)
      exact ⟨List.mem_append_left _ hcall, hpoint⟩
  · by_cases ho : o = op
    · subst ho
      exact absurd hq (by simp [BinderThreads.move, CallStage.answer])
    · exact h.answer o q (by simpa [BinderThreads.move, ho] using hq)
  · by_cases ho : o = op
    · subst ho
      simp [BinderThreads.move, CallStage.Valid]
    · simpa [BinderThreads.move, ho] using h.valid o

/-- A write of another process is a call that begins, takes effect and returns at once. -/
theorem changed (h : Pooled s₀ s log points) (content : ι → Bytes) (properties : Bytes → Bytes) :
    Pooled s₀ ⟨s.service.changed content properties, s.mLock, s.begun + 1,
        Function.update s.stage s.begun .returned⟩
      (log ++ [.invoked s.begun (.changed content properties), .returned s.begun (0, [])])
      (points ++ [⟨s.begun, .changed content properties, (0, [])⟩]) := by
  have hcall : .invoked s.begun (.changed content properties) ∈
      log ++ [(.invoked s.begun (.changed content properties) : PoolEvent ι β)] :=
    List.mem_append_right _ (List.mem_singleton_self _)
  have hnot (r : Int32 × String8) : .returned s.begun r ∉
      log ++ [(.invoked s.begun (.changed content properties) : PoolEvent ι β)] := by
    intro hmem
    rcases List.mem_append.mp hmem with hold | hr
    · exact h.not_fresh_of_returned hold rfl
    · exact absurd (List.mem_singleton.mp hr) (by simp)
  have hspec : OneByOne s.service (.changed content properties) (0, [])
      (s.service.changed content properties) := ⟨rfl, rfl⟩
  have htakes := (h.linear.invoke h.not_begun).takeEffect hcall h.fresh hspec
  have hsplit (e e' : PoolEvent ι β) : log ++ [e, e'] = log ++ [e] ++ [e'] := by simp
  rw [hsplit]
  refine ⟨(h.history.invoke h.not_begun).finish hcall hnot,
    htakes.finish (List.mem_append_right _ (List.mem_singleton_self _)) rfl rfl,
    fun o c hc => ?_, fun o r hr => ?_, fun o c hc => ?_, fun o r hr => ?_, fun o => ?_⟩
  · rw [← hsplit] at hc
    rcases List.mem_append.mp hc with hold | hc
    · exact Nat.lt_succ_of_lt (h.begun o c hold)
    · obtain ⟨rfl, -⟩ : o = s.begun ∧ _ := by simpa using hc
      exact Nat.lt_succ_self s.begun
  · by_cases ho : o = s.begun
    · subst ho
      simp
    · rw [← hsplit] at hr
      rcases List.mem_append.mp hr with hold | hr
      · simpa [ho] using h.ended o r hold
      · exact absurd hr (by simp [ho])
  · by_cases ho : o = s.begun
    · subst ho
      exact absurd hc (by simp [CallStage.pending])
    · obtain ⟨hold, hpoint⟩ := h.pending o c (by simpa [ho] using hc)
      exact ⟨List.mem_append_left _ (List.mem_append_left _ hold), by simpa [ho] using hpoint⟩
  · by_cases ho : o = s.begun
    · subst ho
      exact absurd hr (by simp [CallStage.answer])
    · obtain ⟨p, hp, hown⟩ := h.answer o r (by simpa [ho] using hr)
      exact ⟨p, List.mem_append_left _ hp, hown⟩
  · by_cases ho : o = s.begun
    · subst ho
      simp [CallStage.Valid]
    · simpa [ho, VRNativeService.changed] using h.valid o

theorem accessNode (h : Pooled s₀ s log points) {path : String8} {write : Option String8}
    (kernel : Kernel ι β) (hst : s.stage op = .entered (nodeCall path write)) :
    ∃ points, Pooled s₀ (s.accessNode op path write) log points := by
  have hc : (s.stage op).pending = some (nodeCall path write) := by
    rw [hst]
    rfl
  unfold BinderThreads.accessNode
  split
  · next hnone => exact ⟨_, h.effect hc ⟨kernel, node_missing hnone⟩ rfl rfl⟩
  · next hsome =>
      split
      · next hperm =>
          have hrefused : checkAccessNodePerm (some path) = false := by simpa using hperm
          exact ⟨_, h.effect hc ⟨kernel, node_refused hsome hrefused⟩ rfl rfl⟩
      · next hperm =>
          have hpassed : checkAccessNodePerm (some path) = true := by simpa using hperm
          refine ⟨points, h.quiet (by rw [hst]; simp) hc.symm ?_ ⟨hsome, hpassed⟩⟩
          rw [hst]
          rfl

theorem openNode (h : Pooled s₀ s log points) {path : String8} {write : Option String8}
    (kernel : Kernel ι β) (hst : s.stage op = .permitted path write) :
    ∃ points, Pooled s₀ (s.openNode kernel op path write) log points := by
  have hc : (s.stage op).pending = some (nodeCall path write) := by
    rw [hst]
    rfl
  obtain ⟨hsome, hperm⟩ : CallStage.Valid s.service.files.lookup (.permitted path write) :=
    hst ▸ h.valid op
  unfold BinderThreads.openNode
  cases hopen : s.service.files.openFile (kernel.node s.service (cstr path)) (cstr path) with
  | none => exact ⟨_, h.effect hc ⟨kernel, node_unopened hsome hperm hopen⟩ rfl rfl⟩
  | some fd =>
      refine ⟨points, h.quiet (by rw [hst]; simp) hc.symm ?_ ⟨openFile_lookup hopen, hperm⟩⟩
      rw [hst]
      rfl

theorem moveBytes (h : Pooled s₀ s log points) {path : String8} {write : Option String8} {fd : ι}
    (kernel : Kernel ι β) (hst : s.stage op = .opened path write fd) :
    ∃ points, Pooled s₀ (s.moveBytes kernel op path write fd) log points := by
  have hc : (s.stage op).pending = some (nodeCall path write) := by
    rw [hst]
    rfl
  obtain ⟨hfd, hperm⟩ : CallStage.Valid s.service.files.lookup (.opened path write fd) :=
    hst ▸ h.valid op
  unfold BinderThreads.moveBytes
  dsimp only
  cases hmoved : (kernel.node s.service (cstr path)).moved with
  | none => exact ⟨_, h.effect hc ⟨kernel.opening, node_failed hfd hperm hmoved⟩ rfl rfl⟩
  | some n =>
      cases write with
      | none => exact ⟨_, h.effect hc ⟨kernel.opening, node_read hfd hperm hmoved⟩ rfl rfl⟩
      | some value =>
          exact ⟨_, h.effect hc ⟨kernel.opening, node_written hfd hperm hmoved value⟩ rfl rfl⟩

theorem popen (h : Pooled s₀ s log points) {cmd : String8} (kernel : Kernel ι β)
    (hnames : ∀ line, (kernel.popen s.service line).1.files.lookup = s.service.files.lookup)
    (hst : s.stage op = .entered (.systemCall cmd)) :
    ∃ points, Pooled s₀ (s.popen kernel op cmd) log points := by
  have hc : (s.stage op).pending = some (.systemCall cmd) := by
    rw [hst]
    rfl
  have hinvoke : (vrNativeService kernel).invoke s.service [] (.systemCall cmd) =
      (systemCall kernel.popen s.service cmd []).1 := rfl
  have hkept := hnames (cstr cmd)
  unfold BinderThreads.popen
  unfold systemCall at hinvoke
  split at hinvoke
  · next hperm =>
      rw [if_pos hperm]
      exact ⟨_, h.effect hc ⟨kernel, hinvoke⟩ rfl rfl⟩
  · next hperm =>
      rw [if_neg hperm]
      dsimp only at hinvoke
      cases hran : kernel.popen s.service (cstr cmd) with
      | mk service output =>
          rw [hran] at hinvoke hkept
          cases output with
          | none => exact ⟨_, h.effect hc ⟨kernel, hinvoke⟩ hkept rfl⟩
          | some stream => exact ⟨_, h.effect hc ⟨kernel, hinvoke⟩ hkept rfl⟩

theorem enter (h : Pooled s₀ s log points) {c : NativeCall β} (kernel : Kernel ι β)
    (hnames : ∀ line, (kernel.popen s.service line).1.files.lookup = s.service.files.lookup)
    (hst : s.stage op = .entered c) :
    ∃ points, Pooled s₀ (s.enter kernel op c) log points := by
  have hc : (s.stage op).pending = some c := by
    rw [hst]
    rfl
  have hlock {key : String8} {write : Option String8} (hcall : c = propertyCall key write) :
      ∃ points, Pooled s₀ (s.lock op key write) log points := by
    unfold BinderThreads.lock
    split
    · refine ⟨points, h.quiet (by rw [hst]; simp) (by rw [hc, hcall]; rfl) ?_ trivial⟩
      rw [hst]
      rfl
    · exact ⟨points, h⟩
  cases c with
  | getSystemNode path => exact h.accessNode kernel hst
  | setSystemNode path value => exact h.accessNode kernel hst
  | systemCall cmd => exact h.popen kernel hnames hst
  | getProperty key => exact hlock rfl
  | setProperty key value => exact hlock rfl
  | setThreadScheduler tid policy pri => exact ⟨_, h.effect hc ⟨kernel, rfl⟩ rfl rfl⟩
  | setPostEventObj obj => exact ⟨_, h.effect hc ⟨kernel, rfl⟩ rfl rfl⟩

theorem property (h : Pooled s₀ s log points) {key : String8} {write : Option String8}
    (kernel : Kernel ι β) (hst : s.stage op = .locked key write) :
    ∃ points, Pooled s₀ (s.property kernel op key write) log points := by
  have hc : (s.stage op).pending = some (propertyCall key write) := by
    rw [hst]
    rfl
  cases write with
  | none =>
      have hnames : (s.service.getProperty key []).1.files.lookup = s.service.files.lookup := by
        unfold VRNativeService.getProperty
        dsimp only
        split <;> rfl
      exact ⟨_, h.effect hc ⟨kernel, rfl⟩ hnames rfl⟩
  | some value =>
      have hnames : (s.service.setProperty kernel key value).1.files.lookup =
          s.service.files.lookup := by
        unfold VRNativeService.setProperty
        dsimp only
        split <;> rfl
      exact ⟨_, h.effect hc ⟨kernel, rfl⟩ hnames rfl⟩

/-- A line of output: what is still to be read gives the rest of the answer. -/
theorem collecting_answer {stream line rest : Bytes} (hline : fgets 1024 stream = some (line, rest))
    (sum : Int32) (result : String8) :
    readLines stream result sum =
      readLines rest (result ++ cstr line) (sum + Int32.ofNat (cstr line).length) := by
  rw [readLines, hline]

theorem call (h : Pooled s₀ s log points) (op : Nat) (kernel : Kernel ι β)
    (hnames : ∀ line, (kernel.popen s.service line).1.files.lookup = s.service.files.lookup) :
    ∃ points, Pooled s₀ (s.call kernel op).1 (log ++ (s.call kernel op).2) points := by
  unfold BinderThreads.call
  cases hst : s.stage op with
  | absent => simpa using ⟨points, h⟩
  | entered c => simpa using h.enter kernel hnames hst
  | permitted path write => simpa using h.openNode kernel hst
  | opened path write fd => simpa using h.moveBytes kernel hst
  | collecting stream sum result =>
      dsimp only
      cases hline : fgets 1024 stream with
      | none =>
          have hmoved : Pooled s₀ (s.move op (.leaving (sum, result))) log points := by
            refine h.quiet (by rw [hst]; simp) (by rw [hst]; rfl) ?_ trivial
            rw [hst, CallStage.answer, CallStage.answer, readLines, hline]
          simpa using ⟨points, hmoved⟩
      | some got =>
          obtain ⟨line, rest⟩ := got
          have hmoved : Pooled s₀ (s.move op (.collecting rest
              (sum + Int32.ofNat (cstr line).length) (result ++ cstr line))) log points := by
            refine h.quiet (by rw [hst]; simp) (by rw [hst]; rfl) ?_ trivial
            rw [hst, CallStage.answer, CallStage.answer, collecting_answer hline]
          simpa using ⟨points, hmoved⟩
  | locked key write => simpa using h.property kernel hst
  | unlocking r =>
      have hmoved : Pooled s₀ { s.move op (.leaving r) with mLock := none } log points :=
        h.quiet (by rw [hst]; simp) (by rw [hst]; rfl) (by rw [hst]; rfl) trivial
      simpa using ⟨points, hmoved⟩
  | leaving r => exact ⟨points, h.finish hst⟩
  | returned => simpa using ⟨points, h⟩

theorem step (h : Pooled s₀ s log points) {i : PoolInput ι β} (hi : i.KeepsNames s log) :
    ∃ points, Pooled s₀ (binderThreads.step s i).1 (log ++ (binderThreads.step s i).2) points := by
  cases i with
  | begin c => exact ⟨points, h.begin c⟩
  | step op kernel => exact h.call op kernel hi
  | changed content properties => exact ⟨_, h.changed content properties⟩

end Pooled

/-- Every history of overlapping calls, in any interleaving with one another and with
other processes, is linearizable to the service that takes its calls one by one. -/
theorem native_linearizable {s₀ : VRNativeService ι β} {s : BinderThreads ι β}
    {log : List (PoolEvent ι β)}
    (h : binderThreads.Reach PoolInput.KeepsNames (BinderThreads.idle s₀) s log) :
    WellFormed log ∧ ∃ points, Linearization OneByOne s₀ s.service log points := by
  have hpooled : ∃ points, Pooled s₀ s log points :=
    h.invariant (P := fun s log => ∃ points, Pooled s₀ s log points) ⟨[], Pooled.idle s₀⟩
      fun _ _ _ ⟨_, hs⟩ hi => hs.step hi
  obtain ⟨points, hpoints⟩ := hpooled
  exact ⟨hpoints.history, points, hpoints.linear⟩

end Model

def obligingKernel : Kernel Unit Unit where
  node _ _ := ⟨true, some 128, []⟩
  popen s _ := (s, none)
  propertySet _ _ _ := 0
  schedSetscheduler _ _ _ _ := (0, 0)

def unsetProperties : VRNativeService Unit Unit := ⟨FileSystem.oneFile [] [], fun _ => [], none⟩

/-- The write begins behind the read, waits for no one, and returns first. -/
def overlappingCalls : List (PoolInput Unit Unit) :=
  .begin (.getProperty (ascii "vr")) :: .begin (.setProperty (ascii "vr") (ascii "1")) ::
    (List.replicate 4 (.step 1 obligingKernel) ++ List.replicate 4 (.step 0 obligingKernel))

/-- The read has the value of the write, and an order of the two explains it. -/
theorem native_linearizable_overlapping :
    let r := binderThreads.run (BinderThreads.idle unsetProperties) overlappingCalls
    r.2.drop 2 = [.returned 1 (0, []), .returned 0 (1, ascii "1")] ∧
      ∃ points, Linearization OneByOne unsetProperties r.1.service r.2 points := by
  intro r
  have hkeeps (s : BinderThreads Unit Unit) (log : List (PoolEvent Unit Unit)) (op : Nat) :
      PoolInput.KeepsNames s log (.step op obligingKernel) := fun _ => rfl
  have hreach : binderThreads.Reach PoolInput.KeepsNames (BinderThreads.idle unsetProperties)
      r.1 ([] ++ r.2) :=
    Machine.Reach.start.run ⟨trivial, trivial, hkeeps _ _ 1, hkeeps _ _ 1, hkeeps _ _ 1,
      hkeeps _ _ 1, hkeeps _ _ 0, hkeeps _ _ 0, hkeeps _ _ 0, hkeeps _ _ 0, trivial⟩
  exact ⟨rfl, (native_linearizable hreach).2⟩

end VRAdmin
