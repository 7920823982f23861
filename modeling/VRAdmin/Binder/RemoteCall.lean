import Mathlib.Data.Fintype.Basic
import Mathlib.Tactic.FinCases
import VRAdmin.Binder.IVRNativeService

/-! # A remote call means the local call

Each of the seven requests is decoded to the values that the proxy wrote, so a
transaction that succeeds is one call of the implementation with the caller's
arguments. The request of `setThreadScheduler` alone also needs its arguments to
be evaluated from left to right.
-/

namespace VRAdmin

open Foundation

/-- A call of one of the methods with its arguments. -/
inductive NativeCall (β : Type)
  | getSystemNode (path : String8)
  | setSystemNode (path value : String8)
  | systemCall (cmd : String8)
  | getProperty (key : String8)
  | setProperty (key value : String8)
  | setThreadScheduler (tid policy pri : Int32)
  | setPostEventObj (iPostEvent : Option (IVRPostEvent β))
deriving DecidableEq

section Calls

variable {S P β : Type}

/-- Make the call with the given content of the out-parameter; a method without
one leaves it as it is. -/
def IVRNativeService.invoke (impl : IVRNativeService S β) (s : S) (out : String8) :
    NativeCall β → S × Int32 × String8
  | .getSystemNode path => impl.getSystemNode s path out
  | .setSystemNode path value =>
      ((impl.setSystemNode s path value).1, (impl.setSystemNode s path value).2, out)
  | .systemCall cmd => impl.systemCall s cmd out
  | .getProperty key => impl.getProperty s key out
  | .setProperty key value =>
      ((impl.setProperty s key value).1, (impl.setProperty s key value).2, out)
  | .setThreadScheduler tid policy pri =>
      ((impl.setThreadScheduler s tid policy pri).1,
        (impl.setThreadScheduler s tid policy pri).2, out)
  | .setPostEventObj obj => ((impl.setPostEventObj s obj).1, (impl.setPostEventObj s obj).2, out)

/-- The implementation with a record of the calls made on it. -/
def IVRNativeService.traced (impl : IVRNativeService S β) :
    IVRNativeService (S × List (NativeCall β)) β where
  getSystemNode s path out :=
    let r := impl.getSystemNode s.1 path out
    ((r.1, s.2 ++ [.getSystemNode path]), r.2)
  setSystemNode s path value :=
    let r := impl.setSystemNode s.1 path value
    ((r.1, s.2 ++ [.setSystemNode path value]), r.2)
  systemCall s cmd out :=
    let r := impl.systemCall s.1 cmd out
    ((r.1, s.2 ++ [.systemCall cmd]), r.2)
  getProperty s key out :=
    let r := impl.getProperty s.1 key out
    ((r.1, s.2 ++ [.getProperty key]), r.2)
  setProperty s key value :=
    let r := impl.setProperty s.1 key value
    ((r.1, s.2 ++ [.setProperty key value]), r.2)
  setThreadScheduler s tid policy pri :=
    let r := impl.setThreadScheduler s.1 tid policy pri
    ((r.1, s.2 ++ [.setThreadScheduler tid policy pri]), r.2)
  setPostEventObj s obj :=
    let r := impl.setPostEventObj s.1 obj
    ((r.1, s.2 ++ [.setPostEventObj obj]), r.2)

theorem traced_invoke (impl : IVRNativeService S β) (s : S × List (NativeCall β)) (out : String8)
    (c : NativeCall β) :
    impl.traced.invoke s out c =
      (((impl.invoke s.1 out c).1, s.2 ++ [c]), (impl.invoke s.1 out c).2) := by
  cases c <;> rfl

/-! ## Requests -/

namespace NativeCall

def code : NativeCall β → UInt32
  | .getSystemNode _ => VRACTION_GETNODE
  | .setSystemNode _ _ => VRACTION_SETNODE
  | .systemCall _ => VRACTION_SYSCALL
  | .getProperty _ => VRACTION_GETATTR
  | .setProperty _ _ => VRACTION_SETATTR
  | .setThreadScheduler _ _ _ => VRACTION_SETSCHED
  | .setPostEventObj _ => VRACTION_SETPOSTEVENTOBJ

/-- What the proxy writes behind the interface token. -/
def values : NativeCall β → List (ParcelValue β)
  | .getSystemNode path => [.string8 path]
  | .setSystemNode path value => [.string8 path, .string8 value]
  | .systemCall cmd => [.string8 cmd]
  | .getProperty key => [.string8 key]
  | .setProperty key value => [.string8 key, .string8 value]
  | .setThreadScheduler tid policy pri => [.int32 tid, .int32 policy, .int32 pri]
  | .setPostEventObj obj => [.strongBinder (IVRPostEvent.asBinder obj)]

/-- The request parcel of the call. -/
def data (ops : ParcelOps P β) (c : NativeCall β) : P :=
  let head := ops.writeInterfaceToken ops.fresh interfaceDescriptor
  match c with
  | .getSystemNode path => ops.writeString8 head path
  | .setSystemNode path value => ops.writeString8 (ops.writeString8 head path) value
  | .systemCall cmd => ops.writeString8 head cmd
  | .getProperty key => ops.writeString8 head key
  | .setProperty key value => ops.writeString8 (ops.writeString8 head key) value
  | .setThreadScheduler tid policy pri =>
      ops.writeInt32 (ops.writeInt32 (ops.writeInt32 head tid) policy) pri
  | .setPostEventObj obj => ops.writeStrongBinder head (IVRPostEvent.asBinder obj)

/-- The methods that have an out-parameter. -/
def hasOut : NativeCall β → Bool
  | .getSystemNode _ | .systemCall _ | .getProperty _ => true
  | _ => false

/-- What the stub writes for a result. -/
def replyValues (c : NativeCall β) (r : Int32 × String8) : List (ParcelValue β) :=
  if c.hasOut then [.string8 r.2, .int32 r.1] else [.int32 r.1]

end NativeCall

theorem bp_invoke (ops : ParcelOps P β) (remote : Transact S P) (s : S) (out : String8)
    (c : NativeCall β) :
    (bpVRNativeService ops remote).invoke s out c =
      let r := remote s c.code (c.data ops)
      (r.1,
        if r.2.1 ≠ 0 then (r.2.1, out)
        else if c.hasOut then
          ((ops.readInt32 (ops.readString8 r.2.2).2).1, (ops.readString8 r.2.2).1)
        else ((ops.readInt32 r.2.2).1, out)) := by
  have hout (code : UInt32) (arg : String8) :
      BpVRNativeService.callOut ops remote code s arg out =
        let r := remote s code
          (ops.writeString8 (ops.writeInterfaceToken ops.fresh interfaceDescriptor) arg)
        (r.1, if r.2.1 ≠ 0 then (r.2.1, out)
          else ((ops.readInt32 (ops.readString8 r.2.2).2).1, (ops.readString8 r.2.2).1)) := by
    unfold BpVRNativeService.callOut
    dsimp only
    split <;> rfl
  have hfor (code : UInt32) (data : P) :
      ((BpVRNativeService.callFor ops remote code s data).1,
        (BpVRNativeService.callFor ops remote code s data).2, out) =
        let r := remote s code data
        (r.1, if r.2.1 ≠ 0 then (r.2.1, out) else ((ops.readInt32 r.2.2).1, out)) := by
    unfold BpVRNativeService.callFor
    dsimp only
    split <;> rfl
  cases c with
  | getSystemNode path => exact hout _ path
  | setSystemNode path value => exact hfor _ _
  | systemCall cmd => exact hout _ cmd
  | getProperty key => exact hout _ key
  | setProperty key value => exact hfor _ _
  | setThreadScheduler tid policy pri => exact hfor _ _
  | setPostEventObj obj => exact hfor _ _

section Fifo

variable {Unread : P → List (ParcelValue β) → Prop} {env : StubEnv P β}

theorem NativeCall.data_unread {ops : ParcelOps P β} (fifo : ops.Fifo Unread) (c : NativeCall β) :
    Unread (c.data ops) (.token interfaceDescriptor :: c.values) := by
  have hhead := fifo.writeInterfaceToken fifo.fresh interfaceDescriptor
  cases c with
  | getSystemNode path => exact fifo.writeString8 hhead path
  | setSystemNode path value => exact fifo.writeString8 (fifo.writeString8 hhead path) value
  | systemCall cmd => exact fifo.writeString8 hhead cmd
  | getProperty key => exact fifo.writeString8 hhead key
  | setProperty key value => exact fifo.writeString8 (fifo.writeString8 hhead key) value
  | setThreadScheduler tid policy pri =>
      exact fifo.writeInt32 (fifo.writeInt32 (fifo.writeInt32 hhead tid) policy) pri
  | setPostEventObj obj => exact fifo.writeStrongBinder hhead (IVRPostEvent.asBinder obj)

namespace BnVRNativeService

theorem checked_token (fifo : env.ops.Fifo Unread) {data : P} {d : Bytes}
    {vs : List (ParcelValue β)} (h : Unread data (.token d :: vs)) (s : S) (reply : P)
    (decode : P → S × Int32 × P) :
    checked env s data reply decode =
        if d = interfaceDescriptor then decode (env.ops.checkInterface data interfaceDescriptor).2
        else (s, PERMISSION_DENIED, reply) := by
  have hok := (fifo.checkInterface h interfaceDescriptor).1
  simp only [checked, hok, decide_eq_true_eq]

theorem readThree_eq (fifo : env.ops.Fifo Unread) {data : P} {x y z : Int32}
    (h : Unread data [.int32 x, .int32 y, .int32 z]) : readThree env data = ![x, y, z] := by
  obtain ⟨hx, hdata⟩ := fifo.readInt32 h
  obtain ⟨hy, hdata⟩ := fifo.readInt32 hdata
  obtain ⟨hz, -⟩ := fifo.readInt32 hdata
  simp only [readThree, hx, hy, hz]

/-- The stub on a request of the proxy: the call that it makes, with the
arguments of `setThreadScheduler` as the evaluation order gives them. -/
def decoded (env : StubEnv P β) : NativeCall β → NativeCall β
  | .setThreadScheduler tid policy pri =>
      let (tid', policy', pri') := inOrder env.order ![tid, policy, pri]
      .setThreadScheduler tid' policy' pri'
  | c => c

theorem answerOut_spec (fifo : env.ops.Fifo Unread) {data reply : P} {arg : Bytes}
    (h : Unread data [.string8 arg]) (hreply : Unread reply [])
    (method : S → String8 → String8 → S × Int32 × String8) (s : S) :
    ∃ answer, answerOut env method s data reply = ((method s arg []).1, 0, answer) ∧
      Unread answer [.string8 (method s arg []).2.2, .int32 (method s arg []).2.1] := by
  have harg := (fifo.readString8 h).1
  refine ⟨_, ?_, fifo.writeInt32 (fifo.writeString8 hreply _) _⟩
  simp only [answerOut, harg]

theorem answerSet_spec (fifo : env.ops.Fifo Unread) {data reply : P} {first second : Bytes}
    (h : Unread data [.string8 first, .string8 second]) (hreply : Unread reply [])
    (method : S → String8 → String8 → S × Int32) (s : S) :
    ∃ answer, answerSet env method s data reply = ((method s first second).1, 0, answer) ∧
      Unread answer [.int32 (method s first second).2] := by
  obtain ⟨hfirst, hdata⟩ := fifo.readString8 h
  have hsecond := (fifo.readString8 hdata).1
  refine ⟨_, ?_, fifo.writeInt32 hreply _⟩
  simp only [answerSet, hfirst, hsecond]

/-- The branch of `onTransact` that a request reaches. -/
def answer (env : StubEnv P β) (impl : IVRNativeService S β) (s : S) (reply : P) :
    NativeCall β → P → S × Int32 × P
  | .getSystemNode _, data => answerOut env impl.getSystemNode s data reply
  | .setSystemNode _ _, data => answerSet env impl.setSystemNode s data reply
  | .systemCall _, data => answerOut env impl.systemCall s data reply
  | .getProperty _, data => answerOut env impl.getProperty s data reply
  | .setProperty _ _, data => answerSet env impl.setProperty s data reply
  | .setThreadScheduler _ _ _, data => answerSched env impl s data reply
  | .setPostEventObj _, data => answerPostEventObj env impl s data reply

theorem onTransact_code (impl : IVRNativeService S β) (s : S) (c : NativeCall β) (data reply : P)
    (flags : UInt32) :
    onTransact env impl s c.code data reply flags =
      checked env s data reply (answer env impl s reply c) := by
  cases c <;> rfl

theorem onTransact_unknown {code : UInt32} (h : ∀ c : NativeCall β, code ≠ c.code)
    (impl : IVRNativeService S β) (s : S) (data reply : P) (flags : UInt32) :
    onTransact env impl s code data reply flags = (s, env.bbinder code data reply flags) := by
  have hget : code ≠ VRACTION_GETNODE := h (.getSystemNode [])
  have hset : code ≠ VRACTION_SETNODE := h (.setSystemNode [] [])
  have hsys : code ≠ VRACTION_SYSCALL := h (.systemCall [])
  have hgetattr : code ≠ VRACTION_GETATTR := h (.getProperty [])
  have hsetattr : code ≠ VRACTION_SETATTR := h (.setProperty [] [])
  have hsched : code ≠ VRACTION_SETSCHED := h (.setThreadScheduler 0 0 0)
  have hpost : code ≠ VRACTION_SETPOSTEVENTOBJ := h (.setPostEventObj none)
  unfold onTransact
  rw [if_neg hget, if_neg hset, if_neg hsys, if_neg hgetattr, if_neg hsetattr, if_neg hsched,
    if_neg hpost]

theorem onTransact_spec (fifo : env.ops.Fifo Unread) (impl : IVRNativeService S β) (s : S)
    (c : NativeCall β) {data reply : P} (h : Unread data (.token interfaceDescriptor :: c.values))
    (hreply : Unread reply []) (flags : UInt32) :
    ∃ ans, onTransact env impl s c.code data reply flags =
        ((impl.invoke s [] (decoded env c)).1, 0, ans) ∧
      Unread ans (c.replyValues (impl.invoke s [] (decoded env c)).2) := by
  have hbody := (fifo.checkInterface h interfaceDescriptor).2
  rw [onTransact_code, checked_token fifo h, if_pos rfl]
  cases c with
  | getSystemNode path => exact answerOut_spec fifo hbody hreply impl.getSystemNode s
  | setSystemNode path value => exact answerSet_spec fifo hbody hreply impl.setSystemNode s
  | systemCall cmd => exact answerOut_spec fifo hbody hreply impl.systemCall s
  | getProperty key => exact answerOut_spec fifo hbody hreply impl.getProperty s
  | setProperty key value => exact answerSet_spec fifo hbody hreply impl.setProperty s
  | setThreadScheduler tid policy pri =>
      refine ⟨_, ?_, fifo.writeInt32 hreply _⟩
      simp only [answer, answerSched, readThree_eq fifo hbody]
      rfl
  | setPostEventObj obj =>
      have hobj := (fifo.readStrongBinder hbody).1
      refine ⟨_, ?_, fifo.writeInt32 hreply _⟩
      simp only [answer, answerPostEventObj, hobj, IVRPostEvent.interfaceCast_asBinder]
      rfl

end BnVRNativeService

/-! ## The round trip -/

theorem NativeCall.decoded_leftToRight (horder : env.order = Equiv.refl _) (c : NativeCall β) :
    BnVRNativeService.decoded env c = c := by
  cases c with
  | setThreadScheduler tid policy pri =>
      simp only [BnVRNativeService.decoded, horder]
      rfl
  | _ => rfl

theorem invoke_out_of_not_hasOut (impl : IVRNativeService S β) (s : S) (out : String8)
    {c : NativeCall β} (h : c.hasOut = false) : (impl.invoke s out c).2.2 = out := by
  cases c with
  | getSystemNode | systemCall | getProperty => cases h
  | _ => rfl

theorem reply_read (fifo : env.ops.Fifo Unread) {c : NativeCall β} {r : Int32 × String8}
    {reply : P} (h : Unread reply (c.replyValues r)) (hout : c.hasOut = false → r.2 = []) :
    (if c.hasOut then
        ((env.ops.readInt32 (env.ops.readString8 reply).2).1, (env.ops.readString8 reply).1)
      else ((env.ops.readInt32 reply).1, [])) = r := by
  cases hc : c.hasOut with
  | true =>
      simp only [NativeCall.replyValues, hc, if_true] at h
      obtain ⟨htext, hrest⟩ := fifo.readString8 h
      simp only [htext, (fifo.readInt32 hrest).1, if_true]
  | false =>
      simp only [NativeCall.replyValues, hc, Bool.false_eq_true, if_false] at h
      simp only [(fifo.readInt32 h).1, Bool.false_eq_true, if_false, ← hout hc]

/-- A transaction that reports success makes the decoded call, and the caller
sees what that call gives. -/
theorem bp_invoke_delivered (fifo : env.ops.Fifo Unread) {impl : IVRNativeService S β}
    {remote : Transact S P} (hdel : Delivers env impl remote) {s : S} {c : NativeCall β}
    (hok : (remote s c.code (c.data env.ops)).2.1 = 0) :
    (bpVRNativeService env.ops remote).invoke s [] c =
      impl.invoke s [] (BnVRNativeService.decoded env c) := by
  have hdata := fifo.carry (c.data_unread fifo)
  obtain ⟨ans, hans, hread⟩ := BnVRNativeService.onTransact_spec fifo impl s c hdata fifo.fresh 0
  have hanswer := hdel s c.code (c.data env.ops) hok
  rw [hans] at hanswer
  have hnot : (BnVRNativeService.decoded env c).hasOut = c.hasOut := by cases c <;> rfl
  have hreply := reply_read fifo (fifo.carry hread) fun hc =>
    invoke_out_of_not_hasOut impl s [] (hnot.trans hc)
  rw [bp_invoke, hanswer]
  dsimp only
  rw [if_neg (by decide), hreply]

/-- A request of the proxy is one call of the implementation, with the caller's
arguments, result, out-parameter and state; a failed transaction gives its status
and leaves the out-parameter; a request with another token or code calls nothing. -/
theorem remote_call (fifo : env.ops.Fifo Unread) (horder : env.order = Equiv.refl _)
    (impl : IVRNativeService S β) {remote : Transact (S × List (NativeCall β)) P}
    (hdel : Delivers env impl.traced remote) :
    (∀ s log c,
      let status := (remote (s, log) c.code (c.data env.ops)).2.1
      (status = 0 →
        (bpVRNativeService env.ops remote).invoke (s, log) [] c =
          (((impl.invoke s [] c).1, log ++ [c]), (impl.invoke s [] c).2)) ∧
      (status ≠ 0 → ∀ out,
        ((bpVRNativeService env.ops remote).invoke (s, log) out c).2 = (status, out))) ∧
    ∀ s log code data reply flags,
      (∃ d vs, Unread data (.token d :: vs) ∧ d ≠ interfaceDescriptor) ∨
        (∀ c : NativeCall β, code ≠ c.code) →
      (BnVRNativeService.onTransact env impl.traced (s, log) code data reply flags).1 = (s, log) := by
  refine ⟨?_, ?_⟩
  · intro s log c status
    refine ⟨?_, ?_⟩
    · intro hok
      rw [bp_invoke_delivered fifo hdel hok, NativeCall.decoded_leftToRight horder,
        traced_invoke]
    · intro hfail out
      rw [bp_invoke]
      exact if_pos hfail
  · intro s log code data reply flags hbad
    by_cases hcode : ∃ c : NativeCall β, code = c.code
    · obtain ⟨c, rfl⟩ := hcode
      rcases hbad with ⟨d, vs, hdata, hd⟩ | hunknown
      · rw [BnVRNativeService.onTransact_code, BnVRNativeService.checked_token fifo hdata,
          if_neg hd]
      · exact (hunknown c rfl).elim
    · have hnone : ∀ c : NativeCall β, code ≠ c.code := fun c h => hcode ⟨c, h⟩
      rw [BnVRNativeService.onTransact_unknown hnone]

end Fifo

/-- The transport that loses nothing. -/
def deliver (env : StubEnv P β) (impl : IVRNativeService S β) : Transact S P :=
  fun s code data =>
    let answer := BnVRNativeService.onTransact env impl s code (env.ops.carry data) env.ops.fresh 0
    (answer.1, answer.2.1, env.ops.carry answer.2.2)

theorem deliver_delivers (env : StubEnv P β) (impl : IVRNativeService S β) :
    Delivers env impl (deliver env impl) := fun _ _ _ _ => rfl

theorem deliver_status {Unread : P → List (ParcelValue β) → Prop} {env : StubEnv P β}
    (fifo : env.ops.Fifo Unread) (impl : IVRNativeService S β) (s : S) (c : NativeCall β) :
    (deliver env impl s c.code (c.data env.ops)).2.1 = 0 := by
  have hdata := fifo.carry (c.data_unread fifo)
  obtain ⟨ans, hans, -⟩ := BnVRNativeService.onTransact_spec fifo impl s c hdata fifo.fresh 0
  simp only [deliver, hans]

/-! ## The evaluation order of `setThreadScheduler` -/

/-- The calls that a request of the proxy for `setThreadScheduler` makes. -/
def schedCalls (ops : ParcelOps P β) (bbinder : UInt32 → P → P → UInt32 → Int32 × P)
    (order : Equiv.Perm (Fin 3)) (impl : IVRNativeService S β) (s : S)
    (tid policy pri : Int32) : List (NativeCall β) :=
  ((bpVRNativeService ops (deliver ⟨ops, bbinder, order⟩ impl.traced)).setThreadScheduler (s, [])
    tid policy pri).1.2

theorem schedCalls_eq {ops : ParcelOps P β} {Unread : P → List (ParcelValue β) → Prop}
    (fifo : ops.Fifo Unread) (bbinder : UInt32 → P → P → UInt32 → Int32 × P)
    (order : Equiv.Perm (Fin 3)) (impl : IVRNativeService S β) (s : S) (tid policy pri : Int32) :
    schedCalls ops bbinder order impl s tid policy pri =
      [BnVRNativeService.decoded ⟨ops, bbinder, order⟩ (.setThreadScheduler tid policy pri)] := by
  let env : StubEnv P β := ⟨ops, bbinder, order⟩
  let c : NativeCall β := .setThreadScheduler tid policy pri
  have hfifo : env.ops.Fifo Unread := fifo
  have hok := deliver_status hfifo impl.traced (s, []) c
  have hstep := bp_invoke_delivered hfifo (deliver_delivers env impl.traced) hok
  rw [traced_invoke] at hstep
  exact congrArg (fun r => r.1.2) hstep

/-- The implementation receives the caller's arguments under an evaluation order
exactly when that order maps the triple of arguments to itself; so it receives
them under every order exactly when the three are equal. -/
theorem setThreadScheduler_order {ops : ParcelOps P β} {Unread : P → List (ParcelValue β) → Prop}
    (fifo : ops.Fifo Unread) (bbinder : UInt32 → P → P → UInt32 → Int32 × P)
    (impl : IVRNativeService S β) (s : S) (tid policy pri : Int32) :
    (∀ order : Equiv.Perm (Fin 3),
      schedCalls ops bbinder order impl s tid policy pri = [.setThreadScheduler tid policy pri] ↔
        ![tid, policy, pri] ∘ order = ![tid, policy, pri]) ∧
    ((∀ order : Equiv.Perm (Fin 3),
      schedCalls ops bbinder order impl s tid policy pri = [.setThreadScheduler tid policy pri]) ↔
        tid = policy ∧ policy = pri) := by
  have horder : ∀ order : Equiv.Perm (Fin 3),
      schedCalls ops bbinder order impl s tid policy pri = [.setThreadScheduler tid policy pri] ↔
        ![tid, policy, pri] ∘ order = ![tid, policy, pri] := by
    intro order
    rw [schedCalls_eq fifo, List.singleton_inj]
    simp only [BnVRNativeService.decoded, NativeCall.setThreadScheduler.injEq]
    constructor
    · intro ⟨h0, h1, h2⟩
      funext i
      fin_cases i
      · exact h0
      · exact h1
      · exact h2
    · intro h
      exact ⟨congrFun h 0, congrFun h 1, congrFun h 2⟩
  refine ⟨horder, ?_⟩
  constructor
  · intro hall
    have hfirst := congrFun ((horder (Equiv.swap 0 1)).mp (hall _)) 1
    have hsecond := congrFun ((horder (Equiv.swap 1 2)).mp (hall _)) 2
    exact ⟨by simpa using hfirst, by simpa using hsecond⟩
  · intro ⟨h1, h2⟩ order
    apply (horder order).mpr
    funext i
    have hconst : ∀ j : Fin 3, ![tid, policy, pri] j = pri := by
      intro j
      fin_cases j
      · exact h1.trans h2
      · exact h2
      · rfl
    rw [Function.comp_apply, hconst, hconst]

/-- A service that counts its calls. -/
def countingService : IVRNativeService Nat Unit where
  getSystemNode n path _ := (n + 1, 0, path)
  setSystemNode n _ _ := (n + 1, 0)
  systemCall n cmd out := (n + 1, 2, out ++ cmd)
  getProperty n _ _ := (n + 1, -1, [])
  setProperty n _ _ := (n + 1, 0)
  setThreadScheduler n _ _ pri := (n + 1, pri)
  setPostEventObj n _ := (n + 1, 0)

/-- The stub over lists of values, with its arguments evaluated from left to right. -/
def listStub : StubEnv (List (ParcelValue Unit)) Unit :=
  ⟨listParcel Unit, fun _ _ reply _ => (-74, reply), Equiv.refl _⟩

theorem remote_call_systemCall :
    (bpVRNativeService listStub.ops (deliver listStub countingService.traced)).systemCall (3, [])
        (ascii "dfu-util") [] =
      ((4, [.systemCall (ascii "dfu-util")]), 2, ascii "dfu-util") := by
  have hdel := deliver_delivers listStub countingService.traced
  exact ((remote_call (listParcel_fifo Unit) rfl countingService hdel).1 3 []
    (.systemCall (ascii "dfu-util"))).1 (by decide)

theorem setThreadScheduler_order_equal :
    schedCalls (listParcel Unit) listStub.bbinder (Equiv.swap 0 2) countingService 0 5 5 5 =
      [.setThreadScheduler 5 5 5] :=
  (setThreadScheduler_order (listParcel_fifo Unit) listStub.bbinder countingService 0 5 5 5).2.mpr
    ⟨rfl, rfl⟩ (Equiv.swap 0 2)

/-- Evaluated from right to left, the thread gets the priority as its id. -/
theorem setThreadScheduler_order_fails :
    ¬ ∀ (order : Equiv.Perm (Fin 3)) (tid policy pri : Int32),
      schedCalls (listParcel Unit) listStub.bbinder order countingService 0 tid policy pri =
        [.setThreadScheduler tid policy pri] := by
  intro hall
  exact absurd (hall (Equiv.swap 0 2) 1 2 3) (by decide)

end Calls

end VRAdmin
