import VRAdmin.Binder.RemoteCall

/-! # Transactions that fail

A failed transaction may have been lost on its way to the receiver or on its way
back. Seen by the caller, the proxy over such a driver is the implementation itself
with a fate for each call: answered, or failed with an error status after it was
executed once or not at all.
-/

namespace VRAdmin

open Foundation

/-- What becomes of a call. -/
inductive Fate
  | answered
  | failed (status : Int32) (error : status < 0) (executed : Bool)

section Faults

variable {S P β : Type}

/-- The driver runs the receiver at most once for a transaction, and exactly once
for one that reports success; a `status_t` is zero or an error below zero. -/
structure AtMostOnce (env : StubEnv P β) (impl : IVRNativeService S β) (remote : Transact S P) :
    Prop where
  delivers : Delivers env impl remote
  status : ∀ s code data, (remote s code data).2.1 ≤ 0
  fails : ∀ s code data, (remote s code data).2.1 ≠ 0 →
    (remote s code data).1 = s ∨
      (remote s code data).1 =
        (BnVRNativeService.onTransact env impl s code (env.ops.carry data) env.ops.fresh 0).1

namespace IVRNativeService

/-- The implementation as its stub calls it: the arguments of `setThreadScheduler`
come in the order in which they are evaluated. -/
def received (impl : IVRNativeService S β) (env : StubEnv P β) : IVRNativeService S β :=
  { impl with
    setThreadScheduler := fun s tid policy pri =>
      let (tid', policy', pri') := inOrder env.order ![tid, policy, pri]
      impl.setThreadScheduler s tid' policy' pri' }

theorem received_invoke (impl : IVRNativeService S β) (env : StubEnv P β) (s : S) (out : String8)
    (c : NativeCall β) :
    (impl.received env).invoke s out c = impl.invoke s out (BnVRNativeService.decoded env c) := by
  cases c <;> rfl

theorem received_leftToRight (impl : IVRNativeService S β) {env : StubEnv P β}
    (horder : env.order = Equiv.refl _) : impl.received env = impl := by
  have hsched : (impl.received env).setThreadScheduler = impl.setThreadScheduler := by
    funext s tid policy pri
    dsimp only [received]
    rw [horder]
    rfl
  show { impl with setThreadScheduler := (impl.received env).setThreadScheduler } = impl
  rw [hsched]

/-- A call with an empty out-parameter under its fate. -/
def underFate (impl : IVRNativeService S β) (fate : S → NativeCall β → Fate) (s : S)
    (c : NativeCall β) : S × Int32 × String8 :=
  match fate s c with
  | .answered => impl.invoke s [] c
  | .failed status _ executed => (if executed then (impl.invoke s [] c).1 else s, status, [])

/-- The implementation with a fate for each call. -/
def fated (impl : IVRNativeService S β) (fate : S → NativeCall β → Fate) :
    IVRNativeService S β where
  getSystemNode s path _ := impl.underFate fate s (.getSystemNode path)
  setSystemNode s path value :=
    let r := impl.underFate fate s (.setSystemNode path value)
    (r.1, r.2.1)
  systemCall s cmd _ := impl.underFate fate s (.systemCall cmd)
  getProperty s key _ := impl.underFate fate s (.getProperty key)
  setProperty s key value :=
    let r := impl.underFate fate s (.setProperty key value)
    (r.1, r.2.1)
  setThreadScheduler s tid policy pri :=
    let r := impl.underFate fate s (.setThreadScheduler tid policy pri)
    (r.1, r.2.1)
  setPostEventObj s obj :=
    let r := impl.underFate fate s (.setPostEventObj obj)
    (r.1, r.2.1)

theorem underFate_out (impl : IVRNativeService S β) (fate : S → NativeCall β → Fate) (s : S)
    {c : NativeCall β} (h : c.hasOut = false) : (impl.underFate fate s c).2.2 = [] := by
  unfold underFate
  split
  · exact invoke_out_of_not_hasOut impl s [] h
  · rfl

theorem fated_invoke (impl : IVRNativeService S β) (fate : S → NativeCall β → Fate) (s : S)
    (c : NativeCall β) : (impl.fated fate).invoke s [] c = impl.underFate fate s c := by
  have hfor {c : NativeCall β} (h : c.hasOut = false) :
      ((impl.underFate fate s c).1, (impl.underFate fate s c).2.1, []) =
        impl.underFate fate s c := by
    rw [← impl.underFate_out fate s h]
  cases c with
  | getSystemNode path => rfl
  | setSystemNode path value => exact hfor rfl
  | systemCall cmd => rfl
  | getProperty key => rfl
  | setProperty key value => exact hfor rfl
  | setThreadScheduler tid policy pri => exact hfor rfl
  | setPostEventObj obj => exact hfor rfl

/-- A caller that passes empty out-parameters cannot tell the two apart. -/
def SameCalls (vr vr' : IVRNativeService S β) : Prop :=
  ∀ s c, vr.invoke s [] c = vr'.invoke s [] c

end IVRNativeService

variable {Unread : P → List (ParcelValue β) → Prop} {env : StubEnv P β}

theorem AtMostOnce.state (fifo : env.ops.Fifo Unread) {impl : IVRNativeService S β}
    {remote : Transact S P} (h : AtMostOnce env impl remote) {s : S} {c : NativeCall β}
    (hfail : (remote s c.code (c.data env.ops)).2.1 ≠ 0) :
    (remote s c.code (c.data env.ops)).1 = s ∨
      (remote s c.code (c.data env.ops)).1 = ((impl.received env).invoke s [] c).1 := by
  have hdata := fifo.carry (c.data_unread fifo)
  obtain ⟨ans, hans, -⟩ := BnVRNativeService.onTransact_spec fifo impl s c hdata fifo.fresh 0
  rcases h.fails s c.code (c.data env.ops) hfail with hsame | hran
  · exact Or.inl hsame
  · rw [hans] at hran
    exact Or.inr (hran.trans (congrArg Prod.fst (impl.received_invoke env s [] c)).symm)

/-- One call of the proxy is the call of the implementation under some fate. -/
theorem AtMostOnce.fate (fifo : env.ops.Fifo Unread) {impl : IVRNativeService S β}
    {remote : Transact S P} (h : AtMostOnce env impl remote) (s : S) (c : NativeCall β) :
    ∃ fate, (bpVRNativeService env.ops remote).invoke s [] c =
      (impl.received env).underFate (fun _ _ => fate) s c := by
  by_cases hok : (remote s c.code (c.data env.ops)).2.1 = 0
  · refine ⟨.answered, ?_⟩
    rw [bp_invoke_delivered fifo h.delivers hok, ← impl.received_invoke env]
    rfl
  · have herror := Int32.lt_of_le_of_ne (h.status s c.code (c.data env.ops)) hok
    rw [bp_invoke]
    dsimp only
    rw [if_pos hok]
    rcases h.state fifo hok with hsame | hran
    · refine ⟨.failed _ herror false, ?_⟩
      rw [hsame]
      rfl
    · refine ⟨.failed _ herror true, ?_⟩
      rw [hran]
      rfl

theorem AtMostOnce.sameCalls (fifo : env.ops.Fifo Unread) {impl : IVRNativeService S β}
    {remote : Transact S P} (h : AtMostOnce env impl remote) :
    ∃ fate, (bpVRNativeService env.ops remote).SameCalls ((impl.received env).fated fate) := by
  choose fate hfate using fun s => h.fate fifo s
  refine ⟨fate, fun s c => ?_⟩
  rw [hfate, IVRNativeService.fated_invoke]
  rfl

/-- A driver that drops the requests with some codes and loses the replies to others. -/
def faulty (env : StubEnv P β) (impl : IVRNativeService S β) (dropped lost : UInt32 → Bool)
    (status : Int32) : Transact S P := fun s code data =>
  let answer := deliver env impl s code data
  if dropped code then (s, status, env.ops.fresh)
  else if lost code then (answer.1, status, env.ops.fresh)
  else if answer.2.1 ≤ 0 then answer
  else (answer.1, status, env.ops.fresh)

theorem faulty_atMostOnce (env : StubEnv P β) (impl : IVRNativeService S β)
    (dropped lost : UInt32 → Bool) {status : Int32} (herror : status < 0) :
    AtMostOnce env impl (faulty env impl dropped lost status) where
  delivers := by
    intro s code data h
    have hne : status ≠ 0 := Int32.ne_of_lt herror
    dsimp only [faulty] at h ⊢
    split at h
    · exact (hne h).elim
    · split at h
      · exact (hne h).elim
      · split at h
        · next hd hl hs => rw [if_neg hd, if_neg hl, if_pos hs]; rfl
        · exact (hne h).elim
  status := by
    intro s code data
    have hle := Int32.le_of_lt herror
    dsimp only [faulty]
    split
    · exact hle
    · split
      · exact hle
      · split
        · next hs => exact hs
        · exact hle
  fails := by
    intro s code data _
    dsimp only [faulty]
    split
    · exact Or.inl rfl
    · split
      · exact Or.inr rfl
      · split <;> exact Or.inr rfl

end Faults

end VRAdmin
