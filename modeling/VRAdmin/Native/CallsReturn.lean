import VRAdmin.Foundation.Progress
import VRAdmin.Native.BinderThreads

/-! # Every call returns

A call waits for `mLock` only, and whoever holds `mLock` is about to give it up. So
whatever calls are under way, their own steps bring all of them to their return, with
any answers of the kernel, and leave `mLock` free.
-/

namespace VRAdmin

open Foundation

section Stages

variable {ι β : Type}

namespace CallStage

def holdsLock : CallStage ι β → Bool
  | .locked _ _ => true
  | .unlocking _ => true
  | _ => false

/-- Neither before its begin nor behind its return. -/
def underWay : CallStage ι β → Bool
  | .absent => false
  | .returned => false
  | _ => true

/-- How far the call is from its return; the lines of output come second. -/
def rank : CallStage ι β → Nat × Nat
  | .absent => (0, 0)
  | .entered _ => (5, 0)
  | .permitted _ _ => (4, 0)
  | .opened _ _ _ => (3, 0)
  | .locked _ _ => (3, 0)
  | .collecting stream _ _ => (2, stream.length)
  | .unlocking _ => (2, 0)
  | .leaving _ => (1, 0)
  | .returned => (0, 0)

end CallStage

/-- The order of ranks. -/
def Nearer : Nat × Nat → Nat × Nat → Prop := Prod.Lex (· < ·) (· < ·)

theorem nearer_wf : WellFounded Nearer := WellFounded.prod_lex Nat.lt_wfRel.wf Nat.lt_wfRel.wf

/-- What a step of the call `op` does to its stage and to `mLock`, and what it reports. -/
inductive Advances (op : Nat) : CallStage ι β → Option Nat → CallStage ι β → Option Nat →
    List (PoolEvent ι β) → Prop
  | absent (lock : Option Nat) : Advances op .absent lock .absent lock []
  | gone (lock : Option Nat) : Advances op .returned lock .returned lock []
  | waits (c : NativeCall β) (holder : Nat) :
      Advances op (.entered c) (some holder) (.entered c) (some holder) []
  | goes {st st' : CallStage ι β} (lock : Option Nat) : st.holdsLock = false →
      st'.holdsLock = false → st.underWay = true → st'.underWay = true →
      Nearer st'.rank st.rank → Advances op st lock st' lock []
  | locks (c : NativeCall β) (key : String8) (write : Option String8) :
      Advances op (.entered c) none (.locked key write) (some op) []
  | acts (key : String8) (write : Option String8) (lock : Option Nat) (r : Int32 × String8) :
      Advances op (.locked key write) lock (.unlocking r) lock []
  | unlocks (r : Int32 × String8) (lock : Option Nat) :
      Advances op (.unlocking r) lock (.leaving r) none []
  | returns (r : Int32 × String8) (lock : Option Nat) :
      Advances op (.leaving r) lock .returned lock [.returned op r]

namespace Advances

variable {op o : Nat} {st st' : CallStage ι β} {lock lock' : Option Nat}
  {events : List (PoolEvent ι β)}

theorem holdsLock (h : Advances op st lock st' lock' events)
    (hguard : st.holdsLock = true ↔ lock = some op) : st'.holdsLock = true ↔ lock' = some op := by
  cases h with
  | locks c key write => simp [CallStage.holdsLock]
  | unlocks r lock => simp [CallStage.holdsLock]
  | goes lock hst hst' => rwa [hst, ← hst'] at hguard
  | _ => exact hguard

theorem other_holder (h : Advances op st lock st' lock' events)
    (hguard : st.holdsLock = true ↔ lock = some op) (ho : o ≠ op) :
    lock' = some o ↔ lock = some o := by
  cases h with
  | locks c key write => simp [Ne.symm ho]
  | unlocks r lock =>
      have hown : lock = some op := hguard.mp rfl
      simp [hown, Ne.symm ho]
  | _ => exact Iff.rfl

theorem absent_iff (h : Advances op st lock st' lock' events) :
    st' = .absent ↔ st = .absent := by
  cases h with
  | goes lock _ _ hst hst' =>
      have hnot : st ≠ .absent := fun h => by simp [h, CallStage.underWay] at hst
      have hnot' : st' ≠ .absent := fun h => by simp [h, CallStage.underWay] at hst'
      simp [hnot, hnot']
  | _ => simp

/-- A call under way that need not wait for another comes nearer to its return. -/
theorem nearer (h : Advances op st lock st' lock' events)
    (hguard : st.holdsLock = true ↔ lock = some op) (hopen : lock = none ∨ lock = some op)
    (hthere : st ≠ .absent) (hlive : st ≠ .returned) :
    (lock' = none ∨ lock' = some op) ∧ Nearer st'.rank st.rank := by
  cases h with
  | absent lock => exact absurd rfl hthere
  | gone lock => exact absurd rfl hlive
  | waits c holder =>
      -- the holder would be the call itself, which has not locked
      have hown : some holder = some op := hopen.resolve_left (by simp)
      exact absurd (hguard.mpr hown) (by simp [CallStage.holdsLock])
  | goes lock _ _ _ _ hnear => exact ⟨hopen, hnear⟩
  | locks c key write => exact ⟨Or.inr rfl, Prod.Lex.left _ _ (by simp)⟩
  | acts key write lock r => exact ⟨hopen, Prod.Lex.left _ _ (by simp)⟩
  | unlocks r lock => exact ⟨Or.inl rfl, Prod.Lex.left _ _ (by simp)⟩
  | returns r lock => exact ⟨hopen, Prod.Lex.left _ _ (by simp)⟩

theorem returned (h : Advances op st lock st' lock' events) (hst' : st' = .returned) :
    st = .returned ∨ ∃ r, .returned op r ∈ events := by
  cases h with
  | gone lock => exact Or.inl rfl
  | returns r lock => exact Or.inr ⟨r, List.mem_singleton_self _⟩
  | goes lock _ _ _ hlive => simp [hst', CallStage.underWay] at hlive
  | _ => exact absurd hst' (by simp)

theorem not_invoked (h : Advances op st lock st' lock' events) (c : NativeOperation ι β) :
    .invoked o c ∉ events := by
  cases h <;> simp

end Advances

end Stages

section Pool

variable {ι β : Type} [DecidableEq ι] {kernel : Kernel ι β} {s : BinderThreads ι β} {op : Nat}

/-- The step of a call in these terms, and that it leaves all other calls alone. -/
structure CallStep (s : BinderThreads ι β) (op : Nat) (t : BinderThreads ι β)
    (events : List (PoolEvent ι β)) : Prop where
  begun : t.begun = s.begun
  others : ∀ o, o ≠ op → t.stage o = s.stage o
  advances : Advances op (s.stage op) s.mLock (t.stage op) t.mLock events

namespace CallStep

omit [DecidableEq ι]

theorem refl (h : Advances op (s.stage op) s.mLock (s.stage op) s.mLock []) :
    CallStep s op s [] := ⟨rfl, fun _ _ => rfl, h⟩

theorem moves {st : CallStage ι β} {service : VRNativeService ι β} {lock : Option Nat}
    {events : List (PoolEvent ι β)} (h : Advances op (s.stage op) s.mLock st lock events) :
    CallStep s op ⟨service, lock, s.begun, Function.update s.stage op st⟩ events :=
  ⟨rfl, fun _ ho => Function.update_of_ne ho .., by simpa using h⟩

theorem goes {st : CallStage ι β} {service : VRNativeService ι β}
    (hold : (s.stage op).holdsLock = false ∧ (s.stage op).underWay = true)
    (hnew : st.holdsLock = false ∧ st.underWay = true)
    (hnear : Nearer st.rank (s.stage op).rank) :
    CallStep s op ⟨service, s.mLock, s.begun, Function.update s.stage op st⟩ [] :=
  moves (.goes s.mLock hold.1 hnew.1 hold.2 hnew.2 hnear)

end CallStep

omit [DecidableEq ι] in
theorem enter_step {c : NativeCall β} (hst : s.stage op = .entered c) :
    CallStep s op (s.enter kernel op c) [] := by
  have hgoes {st : CallStage ι β} {service : VRNativeService ι β}
      (hnew : st.holdsLock = false ∧ st.underWay = true) (hnear : st.rank.1 < 5) :
      CallStep s op ⟨service, s.mLock, s.begun, Function.update s.stage op st⟩ [] :=
    CallStep.goes (by rw [hst]; exact ⟨rfl, rfl⟩) hnew
      (by rw [hst]; exact Prod.Lex.left _ _ hnear)
  have haccess (path : String8) (write : Option String8) :
      CallStep s op (s.accessNode op path write) [] := by
    unfold BinderThreads.accessNode
    split
    · exact hgoes ⟨rfl, rfl⟩ (by simp [CallStage.rank])
    · split
      · exact hgoes ⟨rfl, rfl⟩ (by simp [CallStage.rank])
      · exact hgoes ⟨rfl, rfl⟩ (by simp [CallStage.rank])
  have hlock (key : String8) (write : Option String8) :
      CallStep s op (s.lock op key write) [] := by
    unfold BinderThreads.lock
    cases hheld : s.mLock with
    | none => exact CallStep.moves (by rw [hst, hheld]; exact .locks c key write)
    | some holder => exact CallStep.refl (by rw [hst, hheld]; exact .waits c holder)
  cases c with
  | getSystemNode path => exact haccess path none
  | setSystemNode path value => exact haccess path (some value)
  | systemCall cmd =>
      show CallStep s op (s.popen kernel op cmd) []
      unfold BinderThreads.popen
      split
      · exact hgoes ⟨rfl, rfl⟩ (by simp [CallStage.rank])
      · split
        · exact hgoes ⟨rfl, rfl⟩ (by simp [CallStage.rank])
        · exact hgoes ⟨rfl, rfl⟩ (by simp [CallStage.rank])
  | getProperty key => exact hlock key none
  | setProperty key value => exact hlock key (some value)
  | setThreadScheduler tid policy pri => exact hgoes ⟨rfl, rfl⟩ (by simp [CallStage.rank])
  | setPostEventObj obj => exact hgoes ⟨rfl, rfl⟩ (by simp [CallStage.rank])

theorem call_step (kernel : Kernel ι β) (s : BinderThreads ι β) (op : Nat) :
    CallStep s op (s.call kernel op).1 (s.call kernel op).2 := by
  unfold BinderThreads.call
  cases hst : s.stage op with
  | absent => exact CallStep.refl (by rw [hst]; exact .absent s.mLock)
  | entered c => exact enter_step hst
  | permitted path write =>
      dsimp only
      unfold BinderThreads.openNode
      split
      · exact CallStep.goes (by rw [hst]; exact ⟨rfl, rfl⟩) ⟨rfl, rfl⟩
          (by rw [hst]; exact Prod.Lex.left _ _ (by decide))
      · exact CallStep.goes (by rw [hst]; exact ⟨rfl, rfl⟩) ⟨rfl, rfl⟩
          (by rw [hst]; exact Prod.Lex.left _ _ (by decide))
  | opened path write fd =>
      have hleaves {r : Int32 × String8} {service : VRNativeService ι β} :
          CallStep s op ⟨service, s.mLock, s.begun,
            Function.update s.stage op (.leaving r)⟩ [] :=
        CallStep.goes (by rw [hst]; exact ⟨rfl, rfl⟩) ⟨rfl, rfl⟩
          (by rw [hst]; exact Prod.Lex.left _ _ (by decide))
      dsimp only
      unfold BinderThreads.moveBytes
      dsimp only
      cases (kernel.node s.service (cstr path)).moved with
      | none => exact hleaves
      | some n => cases write <;> exact hleaves
  | collecting stream sum result =>
      dsimp only
      cases hline : fgets 1024 stream with
      | none =>
          exact CallStep.goes (by rw [hst]; exact ⟨rfl, rfl⟩) ⟨rfl, rfl⟩
            (by rw [hst]; exact Prod.Lex.left _ _ (by decide))
      | some got =>
          have hshorter : got.2.length < stream.length := fgets_shorter (by decide) hline
          exact CallStep.goes (by rw [hst]; exact ⟨rfl, rfl⟩) ⟨rfl, rfl⟩
            (by rw [hst]; exact Prod.Lex.right _ hshorter)
  | locked key write =>
      cases write with
      | none => exact CallStep.moves (by rw [hst]; exact .acts key none s.mLock _)
      | some value => exact CallStep.moves (by rw [hst]; exact .acts key (some value) s.mLock _)
  | unlocking r => exact CallStep.moves (by rw [hst]; exact .unlocks r s.mLock)
  | leaving r => exact CallStep.moves (by rw [hst]; exact .returns r s.mLock)
  | returned => exact CallStep.refl (by rw [hst]; exact .gone s.mLock)

/-! ## The calls under way -/

/-- Only the steps of calls that have begun. The kernel answers each of them in its own
way, which may depend on the steps up to then. -/
def poolSteps (kernels : List Nat → Kernel ι β) :
    Machine (BinderThreads ι β × List Nat) Nat (PoolEvent ι β) where
  step s op :=
    let ops := s.2 ++ [op]
    let r := s.1.call (kernels ops) op
    ((r.1, ops), r.2)

/-- These steps as inputs of the pool, behind those that were taken before. -/
def answered (kernels : List Nat → Kernel ι β) : List Nat → List Nat → List (PoolInput ι β)
  | _, [] => []
  | before, op :: rest =>
      .step op (kernels (before ++ [op])) :: answered kernels (before ++ [op]) rest

theorem run_poolSteps (kernels : List Nat → Kernel ι β) (s : BinderThreads ι β)
    (before ops : List Nat) :
    let r := (poolSteps kernels).run (s, before) ops
    (r.1.1, r.2) = binderThreads.run s (answered kernels before ops) := by
  induction ops generalizing s before with
  | nil => rfl
  | cons op rest ih =>
      have hrest := ih (s.call (kernels (before ++ [op])) op).1 (before ++ [op])
      dsimp only at hrest ⊢
      rw [answered, Machine.run_cons, Machine.run_cons]
      obtain ⟨hstate, hevents⟩ := Prod.mk.inj hrest
      exact Prod.ext hstate (congrArg (_ ++ ·) hevents)

/-- `mLock` is held by the call that is between its lock and its unlock; every call has
begun that is somewhere. -/
structure Locking (s : BinderThreads ι β) : Prop where
  guard : ∀ op, (s.stage op).holdsLock = true ↔ s.mLock = some op
  present : ∀ op, s.stage op = .absent ↔ s.begun ≤ op

namespace Locking

omit [DecidableEq ι]

theorem idle (service : VRNativeService ι β) : Locking (BinderThreads.idle service) :=
  ⟨fun op => by simp [BinderThreads.idle, CallStage.holdsLock],
    fun op => by simp [BinderThreads.idle]⟩

theorem step {t : BinderThreads ι β} {events : List (PoolEvent ι β)} (h : Locking s)
    (hs : CallStep s op t events) : Locking t where
  guard o := by
    by_cases ho : o = op
    · rw [ho]
      exact hs.advances.holdsLock (h.guard op)
    · rw [hs.others o ho, h.guard o]
      exact (hs.advances.other_holder (h.guard op) ho).symm
  present o := by
    rw [hs.begun, ← h.present o]
    by_cases ho : o = op
    · rw [ho]
      exact hs.advances.absent_iff
    · rw [hs.others o ho]

end Locking

/-- The state `t` comes from `s` by steps of the call `op` alone, which need not wait. -/
structure Alone (s : BinderThreads ι β) (op : Nat) (t : BinderThreads ι β) : Prop where
  locking : Locking t
  begun : t.begun = s.begun
  there : t.stage op ≠ .absent
  open_ : t.mLock = none ∨ t.mLock = some op
  others : ∀ o, o ≠ op → t.stage o = s.stage o

theorem Alone.step {t : BinderThreads ι β} (h : Alone s op t) (kernel : Kernel ι β)
    (hlive : t.stage op ≠ .returned) :
    Alone s op (t.call kernel op).1 ∧
      Nearer ((t.call kernel op).1.stage op).rank (t.stage op).rank := by
  have hstep := call_step kernel t op
  have hnext := h.locking.step hstep
  have hthere : (t.call kernel op).1.stage op ≠ .absent := by
    rw [Ne, hnext.present, hstep.begun, ← h.locking.present]
    exact h.there
  obtain ⟨hopen, hnear⟩ := hstep.advances.nearer (h.locking.guard op) h.open_ h.there hlive
  exact ⟨⟨hnext, hstep.begun.trans h.begun, hthere, hopen,
    fun o ho => (hstep.others o ho).trans (h.others o ho)⟩, hnear⟩

variable {before : List Nat}

/-- A call that need not wait for another is brought to its return by its own steps. -/
theorem Alone.returns (h : Alone s op s) (kernels : List Nat → Kernel ι β) :
    (poolSteps kernels).Leads (s, before) fun t =>
      Alone s op t.1 ∧ t.1.stage op = .returned ∧ t.1.mLock = none := by
  have hdown : (poolSteps kernels).Leads (s, before) fun t =>
      Alone s op t.1 ∧ t.1.stage op = .returned :=
    Machine.Leads.descend nearer_wf (fun t : BinderThreads ι β × List Nat => (t.1.stage op).rank)
      (fun t ht hlive => ⟨op, ht.step (kernels (t.2 ++ [op])) hlive⟩) h
  refine hdown.mono fun t ht => ⟨ht.1, ht.2, ht.1.open_.resolve_right fun hown => ?_⟩
  have hholds := (ht.1.locking.guard op).mpr hown
  simp [ht.2, CallStage.holdsLock] at hholds

/-- Whoever holds `mLock` gives it up. -/
theorem Locking.frees (h : Locking s) (kernels : List Nat → Kernel ι β) :
    (poolSteps kernels).Leads (s, before) fun t =>
      Locking t.1 ∧ t.1.begun = s.begun ∧ t.1.mLock = none := by
  cases hlock : s.mLock with
  | none => exact Machine.Leads.here ⟨h, rfl, hlock⟩
  | some op =>
      have hholds := (h.guard op).mpr hlock
      have hthere : s.stage op ≠ .absent := fun hnot => by
        simp [hnot, CallStage.holdsLock] at hholds
      have halone : Alone s op s := ⟨h, rfl, hthere, Or.inr hlock, fun _ _ => rfl⟩
      exact (halone.returns kernels).mono fun t ht => ⟨ht.1.locking, ht.1.begun, ht.2.2⟩

/-- The first `n` calls are brought to their return one by one. -/
theorem Locking.drains (h : Locking s) (kernels : List Nat → Kernel ι β) (before : List Nat)
    {n : Nat} (hn : n ≤ s.begun) :
    (poolSteps kernels).Leads (s, before) fun t =>
      (Locking t.1 ∧ t.1.begun = s.begun ∧ t.1.mLock = none) ∧
        ∀ op, op < n → t.1.stage op = .returned := by
  induction n with
  | zero => exact (h.frees kernels).mono fun t ht => ⟨ht, fun op hop => absurd hop (by omega)⟩
  | succ n ih =>
      apply (ih (by omega)).trans
      rintro ⟨t, ops⟩ ⟨⟨ht, hbegun, hfree⟩, hdone⟩
      change Locking t at ht
      change t.begun = s.begun at hbegun
      have hthere : t.stage n ≠ .absent := by
        rw [Ne, ht.present]
        omega
      have halone : Alone t n t := ⟨ht, rfl, hthere, Or.inl hfree, fun _ _ => rfl⟩
      apply (halone.returns kernels).mono
      rintro u ⟨hu, hreturned, hunlocked⟩
      refine ⟨⟨hu.locking, hu.begun.trans hbegun, hunlocked⟩, fun op hop => ?_⟩
      by_cases hopn : op = n
      · rw [hopn]
        exact hreturned
      · rw [hu.others op hopn]
        exact hdone op (by omega)

/-! ## In terms of the history -/

omit [DecidableEq ι] in
theorem Locking.appears (h : Locking s) {st : CallStage ι β} {service : VRNativeService ι β}
    (hst : st.holdsLock = false) (hthere : st ≠ .absent) :
    Locking ⟨service, s.mLock, s.begun + 1, Function.update s.stage s.begun st⟩ where
  guard op := by
    by_cases hop : op = s.begun
    · subst hop
      have habsent : s.stage s.begun = .absent := (h.present s.begun).mpr (Nat.le_refl _)
      have hother : s.mLock ≠ some s.begun := fun hown => by
        have hholds := (h.guard s.begun).mpr hown
        simp [habsent, CallStage.holdsLock] at hholds
      simp [hst, hother]
    · simpa [hop] using h.guard op
  present op := by
    by_cases hop : op = s.begun
    · subst hop
      simp [hthere]
    · have hpresent := h.present op
      simp only [Function.update_of_ne hop, hpresent]
      omega

/-- The history knows of every call, and of every return. -/
structure Reported (s : BinderThreads ι β) (log : List (PoolEvent ι β)) : Prop where
  locking : Locking s
  begun : ∀ op c, .invoked op c ∈ log → op < s.begun
  returned : ∀ op, s.stage op = .returned → ∃ r, .returned op r ∈ log

namespace Reported

variable {log : List (PoolEvent ι β)}

theorem call (h : Reported s log) (kernel : Kernel ι β) (op : Nat) :
    Reported (s.call kernel op).1 (log ++ (s.call kernel op).2) := by
  have hstep := call_step kernel s op
  refine ⟨h.locking.step hstep, fun o c hc => ?_, fun o ho => ?_⟩
  · rw [hstep.begun]
    exact h.begun o c ((List.mem_append.mp hc).resolve_right (hstep.advances.not_invoked c))
  · by_cases hop : o = op
    · subst hop
      rcases hstep.advances.returned ho with hold | ⟨r, hr⟩
      · obtain ⟨r, hr⟩ := h.returned o hold
        exact ⟨r, List.mem_append_left _ hr⟩
      · exact ⟨r, List.mem_append_right _ hr⟩
    · rw [hstep.others o hop] at ho
      obtain ⟨r, hr⟩ := h.returned o ho
      exact ⟨r, List.mem_append_left _ hr⟩

theorem step (h : Reported s log) (i : PoolInput ι β) :
    Reported (binderThreads.step s i).1 (log ++ (binderThreads.step s i).2) := by
  have hinvoked {c : NativeOperation ι β} {events : List (PoolEvent ι β)} {o : Nat}
      (hmem : .invoked o c ∈ log ++ events)
      (hevents : ∀ d, .invoked o d ∈ events → o = s.begun) : o < s.begun + 1 := by
    rcases List.mem_append.mp hmem with hold | hnew
    · exact Nat.lt_succ_of_lt (h.begun o c hold)
    · rw [hevents c hnew]
      exact Nat.lt_succ_self _
  cases i with
  | step op kernel => exact h.call kernel op
  | begin c =>
      refine ⟨h.locking.appears rfl (by simp),
        fun o d hd => hinvoked hd (by simp [binderThreads, BinderThreads.step]), fun o ho => ?_⟩
      have hne : o ≠ s.begun := by
        rintro rfl
        simp [binderThreads, BinderThreads.step, BinderThreads.move] at ho
      obtain ⟨r, hr⟩ := h.returned o
        (by simpa [binderThreads, BinderThreads.step, BinderThreads.move, hne] using ho)
      exact ⟨r, List.mem_append_left _ hr⟩
  | changed content properties =>
      refine ⟨h.locking.appears rfl (by simp),
        fun o d hd => hinvoked hd (by simp [binderThreads, BinderThreads.step]), fun o ho => ?_⟩
      by_cases hop : o = s.begun
      · exact ⟨(0, []), by simp [binderThreads, BinderThreads.step, hop]⟩
      · obtain ⟨r, hr⟩ := h.returned o (by
          simpa [binderThreads, BinderThreads.step, BinderThreads.effect, BinderThreads.move,
            hop] using ho)
        exact ⟨r, List.mem_append_left _ hr⟩

theorem run (h : Reported s log) (inputs : List (PoolInput ι β)) :
    Reported (binderThreads.run s inputs).1 (log ++ (binderThreads.run s inputs).2) := by
  induction inputs generalizing s log with
  | nil => simpa using h
  | cons i rest ih =>
      have hrest := ih (h.step i)
      rw [List.append_assoc] at hrest
      exact hrest

end Reported

end Pool

/-- A read is inside `mLock`, a write waits for it, and a command has yet to begin. -/
def waitingCalls : List (PoolInput Unit Unit) :=
  [.begin (.getProperty (ascii "vr")), .begin (.setProperty (ascii "vr") (ascii "1")),
    .begin (.systemCall (ascii "dfu-util -l")), .step 0 obligingKernel, .step 1 obligingKernel]

/-- At the odd steps a property cannot be set, and a command prints a line. -/
def fickleKernels (ops : List Nat) : Kernel Unit Unit :=
  if ops.length % 2 = 0 then obligingKernel
  else
    { obligingKernel with
      propertySet := fun _ _ _ => -1
      popen := fun s _ => (s, some [104, 10]) }

end VRAdmin
