import Mathlib.Logic.Function.Basic
import VRAdmin.Foundation.Machine
import VRAdmin.Foundation.Mutex

/-! # Starting threads

The constructor of `VR::Thread` locks the one `gStartupMutex` of the process and
creates a thread that waits for it; `start` unlocks it. The lock is handed on in this
way between any number of objects: each new thread takes it for a moment before it
dispatches `run`. Constructors, entries and starts of all objects interleave in steps
of a mutex operation, a `pthread_create` or the end of a constructor.
-/

namespace VRAdmin

open Foundation

/-- What the creator of an object has done. -/
inductive Making
  | notMade
  /-- It has locked `gStartupMutex`. -/
  | startupLocked
  /-- It has called `pthread_create`. -/
  | created
  /-- It has locked `gMutex`. -/
  | mapLocked
  /-- It has entered the object in `gThreads`. -/
  | inserted
  /-- The constructor of the base class has returned. -/
  | baseReady
  /-- The constructor of the derived class has returned. -/
  | constructed
  | started
deriving DecidableEq

/-- Where `threadEntry` of an object is. -/
inductive Entry
  | absent
  | created
  /-- It has locked `gStartupMutex`. -/
  | locked
  | unlocked
  /-- It has called `run`. -/
  | running
deriving DecidableEq

/-- The mutexes with their holders, the objects in `gThreads`, and the two sides of
every object. -/
structure Threads (O T : Type) where
  gStartupMutex : Option T
  gMutex : Option T
  gThreads : List O
  making : O → Making
  entry : O → Entry

/-- The next step of an object's creator or of its own thread; `created` tells whether
`pthread_create` makes the thread, if the step calls it. -/
inductive ThreadInput (O : Type)
  | creator (o : O) (created : Bool)
  | entry (o : O)
deriving DecidableEq

/-- An unlock carries the thread that makes it and the holder at that time. -/
inductive ThreadEvent (O T : Type)
  | startupUnlocked (thread : T) (holder : Option T)
  | mapUnlocked (thread : T) (holder : Option T)
  | startCalled (o : O)
  | runBegins (o : O)
deriving DecidableEq

section Model

variable {O T : Type} [DecidableEq O]

namespace Threads

def idle : Threads O T := ⟨none, none, [], fun _ => .notMade, fun _ => .absent⟩

def make (s : Threads O T) (o : O) (st : Making) : Threads O T :=
  { s with making := Function.update s.making o st }

def enter (s : Threads O T) (o : O) (st : Entry) : Threads O T :=
  { s with entry := Function.update s.entry o st }

/-- A lock that is held makes the step wait. -/
def step (creator thread : O → T) (s : Threads O T) :
    ThreadInput O → Threads O T × List (ThreadEvent O T)
  | .creator o created =>
      match s.making o with
      | .notMade =>
          if s.gStartupMutex.isNone then
            ({ s.make o .startupLocked with gStartupMutex := some (creator o) }, [])
          else (s, [])
      | .startupLocked => ((if created then s.enter o .created else s).make o .created, [])
      | .created =>
          if s.gMutex.isNone then ({ s.make o .mapLocked with gMutex := some (creator o) }, [])
          else (s, [])
      | .mapLocked => ({ s.make o .inserted with gThreads := s.gThreads ++ [o] }, [])
      | .inserted =>
          ({ s.make o .baseReady with gMutex := none }, [.mapUnlocked (creator o) s.gMutex])
      | .baseReady => (s.make o .constructed, [])
      | .constructed =>
          ({ s.make o .started with gStartupMutex := none },
            [.startCalled o, .startupUnlocked (creator o) s.gStartupMutex])
      | .started => (s, [])
  | .entry o =>
      match s.entry o with
      | .absent => (s, [])
      | .created =>
          if s.gStartupMutex.isNone then
            ({ s.enter o .locked with gStartupMutex := some (thread o) }, [])
          else (s, [])
      | .locked =>
          ({ s.enter o .unlocked with gStartupMutex := none },
            [.startupUnlocked (thread o) s.gStartupMutex])
      | .unlocked => (s.enter o .running, [.runBegins o])
      | .running => (s, [])

end Threads

def threads (creator thread : O → T) : Machine (Threads O T) (ThreadInput O) (ThreadEvent O T) :=
  ⟨Threads.step creator thread⟩

end Model

/-! ## Why `gStartupMutex` is held -/

/-- `gStartupMutex` is locked for an object that is being made and not started, or by
a thread that has not called `run`. -/
inductive Claimant (O : Type)
  | making (o : O)
  | entering (o : O)

/-- Between the first line of the constructor and `start`. -/
def Making.underWay : Making → Bool
  | .notMade => false
  | .started => false
  | _ => true

/-- The constructor holds `gMutex`. -/
def Making.registering : Making → Bool
  | .mapLocked => true
  | .inserted => true
  | _ => false

/-- Behind the lock of `gStartupMutex`. -/
def Entry.through : Entry → Bool
  | .absent => false
  | .created => false
  | _ => true

section Invariant

variable {O T : Type}

def Claimant.thread (creator thread : O → T) : Claimant O → T
  | .making o => creator o
  | .entering o => thread o

def Claimant.claims (making : O → Making) (entry : O → Entry) : Claimant O → Prop
  | .making o => (making o).underWay = true
  | .entering o => entry o = .locked

/-- Who holds the mutexes and why, and that a thread gets past the lock only behind
its object's `start`. -/
structure HandOff (creator thread : O → T) (s : Threads O T) : Prop where
  startup : Guards s.gStartupMutex (Claimant.thread creator thread)
    (Claimant.claims s.making s.entry)
  map : Guards s.gMutex creator fun o => (s.making o).registering = true
  made : ∀ o, s.entry o ≠ .absent → s.making o ≠ .notMade
  through : ∀ o, (s.entry o).through = true → s.making o = .started

namespace HandOff

variable {creator thread : O → T} {s : Threads O T} {o : O}

theorem idle : HandOff creator thread (Threads.idle : Threads O T) where
  startup := Guards.free _ fun c => by cases c <;> simp [Threads.idle, Claimant.claims, Making.underWay]
  map := Guards.free _ fun _ => nofun
  made _ h := absurd rfl h
  through _ h := nomatch h

theorem started_of_free (h : HandOff creator thread s) (hfree : s.gStartupMutex = none)
    (ho : s.entry o ≠ .absent) : s.making o = .started := by
  have hnone : ¬ (s.making o).underWay = true := h.startup.not_reason hfree (.making o)
  have hmade := h.made o ho
  cases hst : s.making o with
  | notMade => exact absurd hst hmade
  | started => rfl
  | _ => exact absurd (by rw [hst]; rfl) hnone

end HandOff

/-- Every unlock is made by the holder, and `run` begins behind `start`. -/
structure Recorded (s : Threads O T) (log : List (ThreadEvent O T)) : Prop where
  called : ∀ o, s.making o = .started → .startCalled o ∈ log
  byHolder : ∀ t holder, .startupUnlocked t holder ∈ log ∨ .mapUnlocked t holder ∈ log →
    holder = some t
  inOrder : ∀ before o, before ++ [.runBegins o] <+: log → .startCalled o ∈ before

namespace Recorded

variable {s s' : Threads O T} {log : List (ThreadEvent O T)}

theorem event (h : Recorded s log) {e : ThreadEvent O T}
    (hunlock : ∀ t holder, e = .startupUnlocked t holder ∨ e = .mapUnlocked t holder →
      holder = some t)
    (hrun : ∀ o, e = .runBegins o → .startCalled o ∈ log)
    (hcalled : ∀ o, s'.making o = .started → s.making o = .started ∨ e = .startCalled o) :
    Recorded s' (log ++ [e]) where
  called o ho := by
    rcases hcalled o ho with hold | rfl
    · exact List.mem_append_left _ (h.called o hold)
    · exact List.mem_append_right _ (List.mem_singleton_self _)
  byHolder t holder hmem := by
    rcases hmem with hmem | hmem
    · rcases List.mem_append.mp hmem with hold | hnew
      · exact h.byHolder t holder (Or.inl hold)
      · exact hunlock t holder (Or.inl (List.mem_singleton.mp hnew).symm)
    · rcases List.mem_append.mp hmem with hold | hnew
      · exact h.byHolder t holder (Or.inr hold)
      · exact hunlock t holder (Or.inr (List.mem_singleton.mp hnew).symm)
  inOrder before o hpre := by
    rcases List.prefix_concat_iff.mp hpre with heq | hold
    · obtain ⟨rfl, he⟩ := List.append_inj' heq rfl
      exact hrun o (List.singleton_inj.mp he).symm
    · exact h.inOrder before o hold

theorem silent (h : Recorded s log)
    (hcalled : ∀ o, s'.making o = .started → s.making o = .started) : Recorded s' (log ++ []) := by
  rw [List.append_nil]
  exact ⟨fun o ho => h.called o (hcalled o ho), h.byHolder, h.inOrder⟩

end Recorded

end Invariant

section Steps

variable {O T : Type} [DecidableEq O] {making : O → Making} {entry : O → Entry} {o : O}

theorem claims_update_making {st : Making} {c : Claimant O}
    (h : Claimant.claims (Function.update making o st) entry c) :
    c = .making o ∧ st.underWay = true ∨ c ≠ .making o ∧ Claimant.claims making entry c := by
  cases c with
  | making d =>
      by_cases hd : d = o
      · subst hd
        exact Or.inl ⟨rfl, by simpa [Claimant.claims] using h⟩
      · exact Or.inr ⟨by simp [hd], by simpa [Claimant.claims, hd] using h⟩
  | entering d => exact Or.inr ⟨nofun, h⟩

theorem claims_update_entry {st : Entry} {c : Claimant O}
    (h : Claimant.claims making (Function.update entry o st) c) :
    c = .entering o ∧ st = .locked ∨ c ≠ .entering o ∧ Claimant.claims making entry c := by
  cases c with
  | making d => exact Or.inr ⟨nofun, h⟩
  | entering d =>
      by_cases hd : d = o
      · subst hd
        exact Or.inl ⟨rfl, by simpa [Claimant.claims] using h⟩
      · exact Or.inr ⟨by simp [hd], by simpa [Claimant.claims, hd] using h⟩

theorem registering_update {st : Making} {d : O}
    (h : (Function.update making o st d).registering = true) :
    d = o ∧ st.registering = true ∨ d ≠ o ∧ (making d).registering = true := by
  by_cases hd : d = o
  · subst hd
    exact Or.inl ⟨rfl, by simpa using h⟩
  · exact Or.inr ⟨hd, by simpa [hd] using h⟩

namespace HandOff

variable {creator thread : O → T} {s : Threads O T}

/-- A step of the creator, by the mutexes that it leaves. -/
theorem makes (h : HandOff creator thread s) {st : Making} {startup map : Option T}
    {objects : List O} (hst : st ≠ .notMade) (ho : s.making o ≠ .started)
    (hstartup : Guards startup (Claimant.thread creator thread)
      (Claimant.claims (Function.update s.making o st) s.entry))
    (hmap : Guards map creator fun d => (Function.update s.making o st d).registering = true) :
    HandOff creator thread ⟨startup, map, objects, Function.update s.making o st, s.entry⟩ where
  startup := hstartup
  map := hmap
  made d hd := by
    by_cases hdo : d = o
    · subst hdo
      simpa using hst
    · simpa [hdo] using h.made d hd
  through d hd := by
    have hstarted := h.through d hd
    have hdo : d ≠ o := by
      rintro rfl
      exact ho hstarted
    simpa [hdo] using hstarted

/-- A step of the constructor keeps the claim on `gStartupMutex`. -/
theorem startup_kept (h : HandOff creator thread s) {st : Making}
    (ho : (s.making o).underWay = true) :
    Guards s.gStartupMutex (Claimant.thread creator thread)
      (Claimant.claims (Function.update s.making o st) s.entry) := by
  refine h.startup.mono fun c hc => ?_
  rcases claims_update_making hc with ⟨rfl, -⟩ | ⟨-, hold⟩
  · exact ho
  · exact hold

theorem map_kept (h : HandOff creator thread s) {st : Making}
    (ho : st.registering = true → (s.making o).registering = true) :
    Guards s.gMutex creator fun d => (Function.update s.making o st d).registering = true := by
  refine h.map.mono fun d hd => ?_
  rcases registering_update hd with ⟨rfl, hst⟩ | ⟨-, hold⟩
  · exact ho hst
  · exact hold

theorem spawned (h : HandOff creator thread s) (ho : s.making o ≠ .notMade) :
    HandOff creator thread (s.enter o .created) where
  startup := by
    refine h.startup.mono fun c hc => ?_
    rcases claims_update_entry hc with ⟨-, hst⟩ | ⟨-, hold⟩
    · exact nomatch hst
    · exact hold
  map := h.map
  made d hd := by
    by_cases hdo : d = o
    · subst hdo
      exact ho
    · exact h.made d (by simpa [Threads.enter, hdo] using hd)
  through d hd := by
    by_cases hdo : d = o
    · subst hdo
      simp [Threads.enter, Entry.through] at hd
    · exact h.through d (by simpa [Threads.enter, hdo] using hd)

theorem creator_step (h : HandOff creator thread s) (o : O) (created : Bool) :
    HandOff creator thread ((threads creator thread).step s (.creator o created)).1 := by
  simp only [threads, Threads.step]
  cases ho : s.making o with
  | notMade =>
      cases hfree : s.gStartupMutex with
      | some t => exact h
      | none =>
          refine h.makes (by decide) (by rw [ho]; decide) ?_ (h.map_kept nofun)
          refine h.startup.lock (a := .making o) hfree fun c hc => ?_
          rcases claims_update_making hc with ⟨hown, -⟩ | ⟨-, hold⟩
          · exact Or.inr hown
          · exact Or.inl hold
  | startupLocked =>
      cases created with
      | true =>
          have hspawned := h.spawned (o := o) (by rw [ho]; decide)
          have hmaking : (s.enter o .created).making o = .startupLocked := ho
          exact hspawned.makes (by decide) (by rw [hmaking]; decide)
            (hspawned.startup_kept (by rw [hmaking]; rfl)) (hspawned.map_kept nofun)
      | false =>
          exact h.makes (by decide) (by rw [ho]; decide) (h.startup_kept (by rw [ho]; rfl))
            (h.map_kept nofun)
  | created =>
      cases hfree : s.gMutex with
      | some t => exact h
      | none =>
          refine h.makes (by decide) (by rw [ho]; decide) (h.startup_kept (by rw [ho]; rfl)) ?_
          refine h.map.lock (a := o) hfree fun d hd => ?_
          rcases registering_update hd with ⟨hown, -⟩ | ⟨-, hold⟩
          · exact Or.inr hown
          · exact Or.inl hold
  | mapLocked =>
      exact h.makes (by decide) (by rw [ho]; decide) (h.startup_kept (by rw [ho]; rfl))
        (h.map_kept fun _ => by rw [ho]; rfl)
  | inserted =>
      refine h.makes (by decide) (by rw [ho]; decide) (h.startup_kept (by rw [ho]; rfl)) ?_
      refine h.map.unlock (a := o) (by rw [ho]; rfl) fun d hd => ?_
      rcases registering_update hd with ⟨-, hst⟩ | ⟨hne, hold⟩
      · exact nomatch hst
      · exact ⟨hold, hne⟩
  | baseReady =>
      exact h.makes (by decide) (by rw [ho]; decide) (h.startup_kept (by rw [ho]; rfl))
        (h.map_kept nofun)
  | constructed =>
      refine h.makes (by decide) (by rw [ho]; decide) ?_ (h.map_kept nofun)
      refine h.startup.unlock (a := .making o) (show (s.making o).underWay = true by rw [ho]; rfl)
        fun c hc => ?_
      rcases claims_update_making hc with ⟨-, hst⟩ | ⟨hne, hold⟩
      · exact nomatch hst
      · exact ⟨hold, hne⟩
  | started => exact h

/-- A step of an object's thread behind the start of the object. -/
theorem enters (h : HandOff creator thread s) {st : Entry} {startup : Option T}
    (ho : s.making o = .started)
    (hstartup : Guards startup (Claimant.thread creator thread)
      (Claimant.claims s.making (Function.update s.entry o st))) :
    HandOff creator thread
      ⟨startup, s.gMutex, s.gThreads, s.making, Function.update s.entry o st⟩ where
  startup := hstartup
  map := h.map
  made d hd := by
    by_cases hdo : d = o
    · subst hdo
      rw [ho]
      decide
    · exact h.made d (by simpa [hdo] using hd)
  through d hd := by
    by_cases hdo : d = o
    · subst hdo
      exact ho
    · exact h.through d (by simpa [hdo] using hd)

theorem entry_step (h : HandOff creator thread s) (o : O) :
    HandOff creator thread ((threads creator thread).step s (.entry o)).1 := by
  simp only [threads, Threads.step]
  cases ho : s.entry o with
  | absent => exact h
  | created =>
      cases hfree : s.gStartupMutex with
      | some t => exact h
      | none =>
          refine h.enters (h.started_of_free hfree (by rw [ho]; decide)) ?_
          refine h.startup.lock (a := .entering o) hfree fun c hc => ?_
          rcases claims_update_entry hc with ⟨hown, -⟩ | ⟨-, hold⟩
          · exact Or.inr hown
          · exact Or.inl hold
  | locked =>
      refine h.enters (h.through o (by rw [ho]; rfl)) ?_
      refine h.startup.unlock (a := .entering o) ho fun c hc => ?_
      rcases claims_update_entry hc with ⟨-, hst⟩ | ⟨hne, hold⟩
      · exact nomatch hst
      · exact ⟨hold, hne⟩
  | unlocked =>
      refine h.enters (h.through o (by rw [ho]; rfl)) ?_
      refine h.startup.mono fun c hc => ?_
      rcases claims_update_entry hc with ⟨-, hst⟩ | ⟨-, hold⟩
      · exact nomatch hst
      · exact hold
  | running => exact h

theorem step (h : HandOff creator thread s) (i : ThreadInput O) :
    HandOff creator thread ((threads creator thread).step s i).1 := by
  cases i with
  | creator o created => exact h.creator_step o created
  | entry o => exact h.entry_step o

end HandOff

/-! ## What the log records -/

section Runs

variable {creator thread : O → T} {s : Threads O T} {log : List (ThreadEvent O T)}

theorem started_update {st : Making} (hst : st ≠ .started) {d : O}
    (h : Function.update making o st d = .started) : making d = .started := by
  by_cases hd : d = o
  · subst hd
    exact absurd (by simpa using h) hst
  · simpa [hd] using h

theorem Recorded.creator_step (hs : HandOff creator thread s) (h : Recorded s log) (o : O)
    (created : Bool) :
    Recorded ((threads creator thread).step s (.creator o created)).1
      (log ++ ((threads creator thread).step s (.creator o created)).2) := by
  simp only [threads, Threads.step]
  cases ho : s.making o with
  | notMade =>
      cases s.gStartupMutex with
      | some t => exact h.silent fun _ => id
      | none => exact h.silent fun _ => started_update (by decide)
  | startupLocked =>
      cases created with
      | true => exact h.silent fun _ => started_update (by decide)
      | false => exact h.silent fun _ => started_update (by decide)
  | created =>
      cases s.gMutex with
      | some t => exact h.silent fun _ => id
      | none => exact h.silent fun _ => started_update (by decide)
  | mapLocked => exact h.silent fun _ => started_update (by decide)
  | inserted =>
      refine h.event ?_ nofun fun _ hd => Or.inl (started_update (by decide) hd)
      rintro t holder (he | he)
      · exact nomatch he
      · obtain ⟨rfl, rfl⟩ := ThreadEvent.mapUnlocked.inj he
        exact hs.map.held o (by rw [ho]; rfl)
  | baseReady => exact h.silent fun _ => started_update (by decide)
  | constructed =>
      have hstart : Recorded (s.make o .started) (log ++ [.startCalled o]) := by
        refine h.event (by rintro t holder (he | he) <;> exact nomatch he) nofun fun d hd => ?_
        by_cases hdo : d = o
        · exact Or.inr (by rw [hdo])
        · exact Or.inl (by simpa [Threads.make, hdo] using hd)
      rw [show log ++ [.startCalled o, .startupUnlocked (creator o) s.gStartupMutex] =
        log ++ [.startCalled o] ++ [.startupUnlocked (creator o) s.gStartupMutex] by simp]
      refine hstart.event ?_ nofun fun d hd => Or.inl hd
      rintro t holder (he | he)
      · obtain ⟨rfl, rfl⟩ := ThreadEvent.startupUnlocked.inj he
        exact hs.startup.held (.making o) (show (s.making o).underWay = true by rw [ho]; rfl)
      · exact nomatch he
  | started => exact h.silent fun _ => id

theorem Recorded.entry_step (hs : HandOff creator thread s) (h : Recorded s log) (o : O) :
    Recorded ((threads creator thread).step s (.entry o)).1
      (log ++ ((threads creator thread).step s (.entry o)).2) := by
  simp only [threads, Threads.step]
  cases ho : s.entry o with
  | absent => exact h.silent fun _ => id
  | created =>
      cases s.gStartupMutex with
      | some t => exact h.silent fun _ => id
      | none => exact h.silent fun _ => id
  | locked =>
      refine h.event ?_ nofun fun _ hd => Or.inl hd
      rintro t holder (he | he)
      · obtain ⟨rfl, rfl⟩ := ThreadEvent.startupUnlocked.inj he
        exact hs.startup.held (.entering o) ho
      · exact nomatch he
  | unlocked =>
      refine h.event (by rintro t holder (he | he) <;> exact nomatch he) ?_ fun _ hd => Or.inl hd
      intro d hd
      obtain rfl := ThreadEvent.runBegins.inj hd
      exact h.called o (hs.through o (by rw [ho]; rfl))
  | running => exact h.silent fun _ => id

theorem reach_handOff
    (h : (threads creator thread).Reach (fun _ _ _ => True) Threads.idle s log) :
    HandOff creator thread s ∧ Recorded s log := by
  refine h.invariant (P := fun s log => HandOff creator thread s ∧ Recorded s log)
    ⟨HandOff.idle, nofun, by simp, by simp⟩ fun s log i hs _ => ⟨hs.1.step i, ?_⟩
  cases i with
  | creator o created => exact hs.2.creator_step hs.1 o created
  | entry o => exact hs.2.entry_step hs.1 o

/-- In every interleaving of constructors, starts and entries, of any number of objects
with any creators: an object's `run` begins behind its own `start`, every unlock of
`gStartupMutex` is made by the thread that holds it, and at most one object is
constructed and not started. -/
theorem start_handoff
    (h : (threads creator thread).Reach (fun _ _ _ => True) Threads.idle s log) :
    (∀ before o, before ++ [.runBegins o] <+: log → .startCalled o ∈ before) ∧
    (∀ t holder, .startupUnlocked t holder ∈ log → holder = some t) ∧
    ∀ o o', s.making o = .constructed → s.making o' = .constructed → o = o' := by
  obtain ⟨hs, hlog⟩ := reach_handOff h
  refine ⟨hlog.inOrder, fun t holder hmem => hlog.byHolder t holder (Or.inl hmem), ?_⟩
  intro o o' ho ho'
  have hone := hs.startup.one (.making o) (.making o')
    (show (s.making o).underWay = true by rw [ho]; rfl)
    (show (s.making o').underWay = true by rw [ho']; rfl)
  exact Claimant.making.inj hone

end Runs

end Steps

/-- One creator makes and starts the object `true` and begins to make `false`, while the
thread of `true` runs up to `run`. -/
def startInputs : List (ThreadInput Bool) :=
  List.replicate 7 (.creator true true) ++ [.entry true, .creator false true, .entry true,
    .creator false true, .entry true, .creator false true]

/-- The thread of the first object begins to run behind its start. -/
theorem start_handoff_first :
    let r := (threads (fun _ => 0) Bool.toNat).run Threads.idle startInputs
    .startCalled true ∈ r.2.take 4 ∧ r.2.drop 4 = [.runBegins true] := by
  intro r
  have hreach : (threads (fun _ => 0) Bool.toNat).Reach (fun _ _ _ => True) Threads.idle
      r.1 ([] ++ r.2) :=
    Machine.Reach.start.run (by decide)
  have hruns : r.2.drop 4 = [.runBegins true] := by decide
  refine ⟨(start_handoff hreach).1 (r.2.take 4) true ?_, hruns⟩
  rw [← hruns, List.take_append_drop]
  exact List.prefix_refl _

end VRAdmin
