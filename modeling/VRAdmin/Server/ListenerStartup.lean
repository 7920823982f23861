import VRAdmin.Server.Directory
import VRAdmin.Server.ServerProcess
import VRAdmin.Server.Thread

/-! # From the constructor to the replies

`vrserver` from its first step: the constructors of `ServerListener` objects read their
documents into `mXmlData` while the threads that they have created wait for
`gStartupMutex`; behind `start` each thread runs the select loop, which reads the
same `mXmlData` through all of its connectors and takes no lock. Start-up of any number
of objects and turns of the loops of others interleave. The loops never see a store that
is still being filled.
-/

namespace VRAdmin

open Foundation ClientConnector

/-- Where `run` of an object is. -/
inductive Running
  | notBegun
  /-- Without SDKs, a pipe or a socket. -/
  | gaveUp
  | looping (l : ServerListener)

def Running.ofSetup : Option ServerListener → Running
  | none => .gaveUp
  | some l => .looping l

def Running.listener : Running → Option ServerListener
  | .looping l => some l
  | _ => none

/-- All listeners, with the calls of `parser` that their constructors have yet to make. -/
structure Listeners (O T : Type) where
  threads : Threads O T
  mXmlData : O → XmlDatabase
  toParse : O → List ParserCall
  run : O → Running

inductive ListenersInput (O : Type)
  | startup (i : ThreadInput O)
  /-- `run` up to its loop. -/
  | setup (o : O) (pipe : Option (Int × Int)) (listenfd listen : Int) (len : UInt32)
  | turn (o : O) (t : Turn)

inductive ListenersEvent (O T : Type)
  | thread (e : ThreadEvent O T)
  | parsed (o : O) (result : Int)
  | server (o : O) (e : Event)

section Model

variable {O T : Type} [DecidableEq O]

namespace Listeners

def idle (calls : O → List ParserCall) : Listeners O T :=
  ⟨Threads.idle, fun _ => XmlDatabase.empty, calls, fun _ => .notBegun⟩

/-- A step of a constructor, of `start` or of `threadEntry`. -/
def startup (creator thread : O → T) (s : Listeners O T) (i : ThreadInput O) :
    Listeners O T × List (ListenersEvent O T) :=
  let r := s.threads.step creator thread i
  ({ s with threads := r.1 }, r.2.map .thread)

/-- The next statement of the body of the constructor. -/
def parse (s : Listeners O T) (o : O) (call : ParserCall) (rest : List ParserCall) :
    Listeners O T × List (ListenersEvent O T) :=
  let r := call.exec (s.mXmlData o)
  ({ s with mXmlData := Function.update s.mXmlData o r.1,
            toParse := Function.update s.toParse o rest }, [.parsed o r.2])

/-- The next step of the thread that makes the object. -/
def create (creator thread : O → T) (s : Listeners O T) (o : O) (created : Bool) :
    Listeners O T × List (ListenersEvent O T) :=
  match s.toParse o with
  | [] => s.startup creator thread (.creator o created)
  | call :: rest =>
      -- the body of the constructor begins behind the one of the base class
      if s.threads.making o = .baseReady then s.parse o call rest
      else s.startup creator thread (.creator o created)

def setRun (s : Listeners O T) (o : O) (r : Running) : Listeners O T :=
  { s with run := Function.update s.run o r }

theorem setRun_self (s : Listeners O T) (o : O) (r : Running) : (s.setRun o r).run o = r :=
  Function.update_self ..

theorem setRun_other (s : Listeners O T) {o d : O} (h : d ≠ o) (r : Running) :
    (s.setRun o r).run d = s.run d := Function.update_of_ne h ..

def setup (s : Listeners O T) (o : O) (pipe : Option (Int × Int)) (listenfd listen : Int)
    (len : UInt32) : Listeners O T :=
  match s.run o with
  | .notBegun =>
      if s.threads.entry o = .running then
        s.setRun o (.ofSetup (ServerListener.setup (s.mXmlData o) pipe listenfd listen len))
      else s
  | _ => s

def turn (s : Listeners O T) (o : O) (t : Turn) : Listeners O T × List (ListenersEvent O T) :=
  match s.run o with
  | .looping l =>
      -- the member may have changed under the loop
      let r := ServerListener.turn { l with mXmlData := s.mXmlData o } t
      (s.setRun o (.looping r.1), r.2.map (.server o))
  | _ => (s, [])

def step (creator thread : O → T) (s : Listeners O T) :
    ListenersInput O → Listeners O T × List (ListenersEvent O T)
  | .startup (.creator o created) => s.create creator thread o created
  | .startup (.entry o) => s.startup creator thread (.entry o)
  | .setup o pipe listenfd listen len => (s.setup o pipe listenfd listen len, [])
  | .turn o t => s.turn o t

end Listeners

def listeners (creator thread : O → T) :
    Machine (Listeners O T) (ListenersInput O) (ListenersEvent O T) :=
  ⟨Listeners.step creator thread⟩

/-- What the loop of an object has done. -/
def ListenersEvent.servedBy (o : O) : ListenersEvent O T → Option Event
  | .server d e => if d = o then some e else none
  | _ => none

def servedBy (o : O) (log : List (ListenersEvent O T)) : List Event :=
  log.filterMap (ListenersEvent.servedBy o)

def ListenersEvent.ofThread : ListenersEvent O T → Option (ThreadEvent O T)
  | .thread e => some e
  | _ => none

def ofThreads (log : List (ListenersEvent O T)) : List (ThreadEvent O T) :=
  log.filterMap ListenersEvent.ofThread

/-- The kernel gives each loop descriptors that it does not have. -/
def ListenersInput.Fresh (s : Listeners O T) (log : List (ListenersEvent O T)) :
    ListenersInput O → Prop
  | .turn o t => ∀ l ∈ (s.run o).listener, FreshAccept l (servedBy o log) t
  | _ => True

instance (s : Listeners O T) (log : List (ListenersEvent O T)) :
    (i : ListenersInput O) → Decidable (i.Fresh s log)
  | .turn o t =>
      inferInstanceAs (Decidable (∀ l ∈ (s.run o).listener, FreshAccept l (servedBy o log) t))
  | .startup _ | .setup .. => isTrue trivial

omit [DecidableEq O] in
theorem ofThreads_append (log events : List (ListenersEvent O T)) :
    ofThreads (log ++ events) = ofThreads log ++ ofThreads events := List.filterMap_append

omit [DecidableEq O] in
theorem ofThreads_thread (events : List (ThreadEvent O T)) :
    ofThreads (events.map ListenersEvent.thread) = events := by
  rw [ofThreads, List.filterMap_map]
  exact List.filterMap_some

omit [DecidableEq O] in
theorem ofThreads_server (o : O) (events : List Event) :
    ofThreads (events.map (ListenersEvent.server (T := T) o)) = [] := by
  rw [ofThreads, List.filterMap_map]
  exact List.filterMap_none events

theorem servedBy_append (o : O) (log events : List (ListenersEvent O T)) :
    servedBy o (log ++ events) = servedBy o log ++ servedBy o events := List.filterMap_append

theorem servedBy_thread (o : O) (events : List (ThreadEvent O T)) :
    servedBy o (events.map ListenersEvent.thread) = [] := by
  rw [servedBy, List.filterMap_map]
  exact List.filterMap_none events

theorem servedBy_server (o d : O) (events : List Event) :
    servedBy o (events.map (ListenersEvent.server (T := T) d)) = if d = o then events else [] := by
  rw [servedBy, List.filterMap_map]
  by_cases hd : d = o
  · simp [ListenersEvent.servedBy, hd]
  · simp [Function.comp_def, ListenersEvent.servedBy, hd]

/-! ## One step of a thread -/

/-- Behind the constructor of the derived class. -/
def Making.built : Making → Bool
  | .constructed => true
  | .started => true
  | _ => false

def Making.next : Making → Making
  | .notMade => .startupLocked
  | .startupLocked => .created
  | .created => .mapLocked
  | .mapLocked => .inserted
  | .inserted => .baseReady
  | .baseReady => .constructed
  | .constructed => .started
  | .started => .started

section Threads

variable {creator thread : O → T} {s : Threads O T} {o : O}

theorem making_moves (i : ThreadInput O) :
    ((threads creator thread).step s i).1.making = s.making ∨
      ∃ d created, i = .creator d created ∧ ((threads creator thread).step s i).1.making =
        Function.update s.making d (s.making d).next := by
  cases i with
  | entry d =>
      apply Or.inl
      simp only [threads, Threads.step]
      cases s.entry d with
      | created => cases s.gStartupMutex <;> rfl
      | _ => rfl
  | creator d created =>
      simp only [threads, Threads.step]
      cases hd : s.making d with
      | notMade =>
          cases s.gStartupMutex with
          | some t => exact Or.inl rfl
          | none => exact Or.inr ⟨d, created, rfl, by rw [hd]; rfl⟩
      | startupLocked =>
          refine Or.inr ⟨d, created, rfl, ?_⟩
          rw [hd]
          cases created <;> rfl
      | created =>
          cases s.gMutex with
          | some t => exact Or.inl rfl
          | none => exact Or.inr ⟨d, created, rfl, by rw [hd]; rfl⟩
      | started => exact Or.inl rfl
      | _ => exact Or.inr ⟨d, created, rfl, by rw [hd]; rfl⟩

/-- Only the creator's step out of the base class's constructor brings an object there. -/
theorem built_step {i : ThreadInput O}
    (h : (((threads creator thread).step s i).1.making o).built = true) :
    (s.making o).built = true ∨ s.making o = .baseReady ∧ ∃ created, i = .creator o created := by
  rcases making_moves i with
    hsame | ⟨d, created, rfl, hnext⟩
  · rw [hsame] at h
    exact Or.inl h
  · rw [hnext] at h
    by_cases hdo : o = d
    · subst hdo
      rw [Function.update_self] at h
      cases ho : s.making o with
      | baseReady => exact Or.inr ⟨rfl, created, rfl⟩
      | constructed => exact Or.inl rfl
      | started => exact Or.inl rfl
      | _ => exact absurd h (by rw [ho]; decide)
    · rw [Function.update_of_ne hdo] at h
      exact Or.inl h

theorem running_step (hs : HandOff creator thread s) (ho : s.entry o = .running)
    (i : ThreadInput O) : ((threads creator thread).step s i).1.entry o = .running := by
  cases i with
  | entry d =>
      simp only [threads, Threads.step]
      by_cases hdo : o = d
      · subst hdo
        simp [ho]
      · cases hd : s.entry d with
        | created => cases hfree : s.gStartupMutex <;> simp [Threads.enter, hdo, ho]
        | _ => simp [Threads.enter, hdo, ho]
  | creator d created =>
      simp only [threads, Threads.step]
      cases hd : s.making d with
      | notMade => cases hfree : s.gStartupMutex <;> simp [Threads.make, ho]
      | startupLocked =>
          have hdo : o ≠ d := by
            rintro rfl
            have hstarted := hs.through o (by rw [ho]; rfl)
            exact absurd (hd.symm.trans hstarted) (by decide)
          cases created <;> simp [Threads.make, Threads.enter, hdo, ho]
      | created => cases hfree : s.gMutex <;> simp [Threads.make, ho]
      | _ => simp [Threads.make, ho]

end Threads

/-! ## The store behind the lock -/

/-- What the loop of an object has done, on a store that was ready when it began. -/
def Running.Serves (db : XmlDatabase) (events : List Event) : Running → Prop
  | .looping l => ∃ wakeupRead wakeupWrite listenFd len, serverLoop.Reach FreshAccept
      (ServerListener.start wakeupRead wakeupWrite listenFd db len) l events
  | _ => events = []

structure Published (creator thread : O → T) (calls : O → List ParserCall) (s : Listeners O T)
    (log : List (ListenersEvent O T)) : Prop where
  threads : (threads creator thread).Reach (fun _ _ _ => True) Threads.idle s.threads
    (ofThreads log)
  parsed : ∀ o, ∃ done, calls o = done ++ s.toParse o ∧ s.mXmlData o = parseAll done
  finished : ∀ o, (s.threads.making o).built = true → s.toParse o = []
  begun : ∀ o, s.run o ≠ .notBegun → s.threads.entry o = .running
  serves : ∀ o, (s.run o).Serves (parseAll (calls o)) (servedBy o log)

namespace Published

variable {creator thread : O → T} {calls : O → List ParserCall} {s : Listeners O T}
  {log : List (ListenersEvent O T)} {o : O}

theorem idle (calls : O → List ParserCall) :
    Published creator thread calls (Listeners.idle calls) [] where
  threads := Machine.Reach.start
  parsed o := ⟨[], rfl, rfl⟩
  finished o h := absurd h (by simp [Listeners.idle, Threads.idle, Making.built])
  begun o h := absurd rfl h
  serves o := rfl

/-- Behind the lock of its own thread an object's store is the one of all its calls. -/
theorem ready (h : Published creator thread calls s log)
    (ho : (s.threads.entry o).through = true) :
    s.mXmlData o = parseAll (calls o) ∧ s.toParse o = [] := by
  have hstarted := (reach_handOff h.threads).1.through o ho
  have hnil : s.toParse o = [] := h.finished o (by rw [hstarted]; rfl)
  obtain ⟨done, hdone, hdata⟩ := h.parsed o
  rw [hnil, List.append_nil] at hdone
  rw [hdone]
  exact ⟨hdata, hnil⟩

theorem startup (h : Published creator thread calls s log) {i : ThreadInput O}
    (hi : ∀ o created, i = .creator o created → s.threads.making o = .baseReady →
      s.toParse o = []) :
    Published creator thread calls (s.startup creator thread i).1
      (log ++ (s.startup creator thread i).2) where
  threads := by
    rw [ofThreads_append]
    show Machine.Reach _ _ _ _ (_ ++ ofThreads (List.map _ _))
    rw [ofThreads_thread]
    exact h.threads.next trivial
  parsed := h.parsed
  finished o ho := by
    rcases built_step ho with hold | ⟨hready, created, hcreator⟩
    · exact h.finished o hold
    · exact hi o created hcreator hready
  begun o ho := running_step (reach_handOff h.threads).1 (h.begun o ho) i
  serves o := by
    rw [servedBy_append]
    show Running.Serves _ (_ ++ servedBy o (List.map _ _)) _
    rw [servedBy_thread, List.append_nil]
    exact h.serves o

theorem parse (h : Published creator thread calls s log) {call : ParserCall}
    {rest : List ParserCall} (ho : s.threads.making o = .baseReady)
    (hcall : s.toParse o = call :: rest) :
    Published creator thread calls (s.parse o call rest).1 (log ++ (s.parse o call rest).2) where
  threads := by
    rw [ofThreads_append]
    exact (List.append_nil _).symm ▸ h.threads
  parsed d := by
    obtain ⟨done, hdone, hdata⟩ := h.parsed d
    by_cases hd : d = o
    · subst hd
      refine ⟨done ++ [call], ?_, ?_⟩
      · simp [Listeners.parse, hdone, hcall]
      · simp [Listeners.parse, parseAll_snoc, hdata]
    · exact ⟨done, by simp [Listeners.parse, hd, hdone], by simp [Listeners.parse, hd, hdata]⟩
  finished d hd := by
    have hne : d ≠ o := by
      rintro rfl
      rw [show (s.parse d call rest).1.threads.making d = .baseReady from ho] at hd
      exact absurd hd (by decide)
    simpa [Listeners.parse, hne] using h.finished d hd
  begun := h.begun
  serves d := by
    rw [servedBy_append]
    exact (List.append_nil _).symm ▸ h.serves d

theorem setup (h : Published creator thread calls s log) {pipe : Option (Int × Int)}
    {listenfd listen : Int} {len : UInt32} (ho : s.threads.entry o = .running)
    (hnot : s.run o = .notBegun) :
    Published creator thread calls
      (s.setRun o (.ofSetup (ServerListener.setup (s.mXmlData o) pipe listenfd listen len)))
      log where
  threads := h.threads
  parsed := h.parsed
  finished := h.finished
  begun d hd := by
    by_cases hdo : d = o
    · rw [hdo]
      exact ho
    · rw [Listeners.setRun_other s hdo] at hd
      exact h.begun d hd
  serves d := by
    by_cases hdo : d = o
    · subst hdo
      have hsilent : servedBy d log = [] := by
        have hserves := h.serves d
        rwa [hnot] at hserves
      rw [Listeners.setRun_self, (h.ready (by rw [ho]; rfl)).1, hsilent]
      cases hsetup : ServerListener.setup (parseAll (calls d)) pipe listenfd listen len with
      | none => rfl
      | some l =>
          obtain ⟨wakeupRead, wakeupWrite, rfl⟩ := setup_start hsetup
          exact ⟨wakeupRead, wakeupWrite, listenfd, len, Machine.Reach.start⟩
    · rw [Listeners.setRun_other s hdo]
      exact h.serves d

theorem turn (h : Published creator thread calls s log) {l : ServerListener} {t : Turn}
    (hl : s.run o = .looping l) (ht : FreshAccept l (servedBy o log) t) :
    Published creator thread calls (s.turn o t).1 (log ++ (s.turn o t).2) := by
  have hrunning := h.begun o (by rw [hl]; simp)
  have hserves := h.serves o
  rw [hl] at hserves
  obtain ⟨wakeupRead, wakeupWrite, listenFd, len, hreach⟩ := hserves
  -- the loop finds the store as it was when it began
  have hsame : s.mXmlData o = l.mXmlData := by
    rw [(h.ready (by rw [hrunning]; rfl)).1, (reach_tracks hreach).1.db_eq]
  have hturn : s.turn o t =
      (s.setRun o (.looping (l.turn t).1), (l.turn t).2.map (.server o)) := by
    rw [Listeners.turn, hl]
    dsimp only
    rw [hsame]
  rw [hturn]
  refine ⟨?_, h.parsed, h.finished, fun d hd => ?_, fun d => ?_⟩
  · rw [ofThreads_append, ofThreads_server, List.append_nil]
    exact h.threads
  · by_cases hdo : d = o
    · rw [hdo]
      exact hrunning
    · rw [Listeners.setRun_other s hdo] at hd
      exact h.begun d hd
  · rw [servedBy_append, servedBy_server]
    by_cases hdo : d = o
    · subst hdo
      rw [if_pos rfl]
      show Running.Serves _ _ ((s.setRun d _).run d)
      rw [Listeners.setRun_self]
      exact ⟨wakeupRead, wakeupWrite, listenFd, len, hreach.next ht⟩
    · rw [if_neg (Ne.symm hdo), List.append_nil]
      show Running.Serves _ _ ((s.setRun o _).run d)
      rw [Listeners.setRun_other s hdo]
      exact h.serves d

theorem create (h : Published creator thread calls s log) (o : O) (created : Bool) :
    Published creator thread calls (s.create creator thread o created).1
      (log ++ (s.create creator thread o created).2) := by
  unfold Listeners.create
  cases hcalls : s.toParse o with
  | nil =>
      refine h.startup fun d other hd _ => ?_
      obtain ⟨rfl, -⟩ := ThreadInput.creator.inj hd
      exact hcalls
  | cons call rest =>
      dsimp only
      split
      · next ho => exact h.parse ho hcalls
      · next ho =>
          refine h.startup fun d other hd hready => ?_
          obtain ⟨rfl, -⟩ := ThreadInput.creator.inj hd
          exact absurd hready ho

theorem step (h : Published creator thread calls s log) {i : ListenersInput O}
    (hi : i.Fresh s log) :
    Published creator thread calls ((listeners creator thread).step s i).1
      (log ++ ((listeners creator thread).step s i).2) := by
  cases i with
  | startup i =>
      cases i with
      | creator o created => exact h.create o created
      | entry o => exact h.startup (by simp)
  | setup o pipe listenfd listen len =>
      simp only [listeners, Listeners.step, Listeners.setup, List.append_nil]
      cases hrun : s.run o with
      | notBegun =>
          dsimp only
          split
          · next ho => exact h.setup ho hrun
          · exact h
      | _ => exact h
  | turn o t =>
      cases hrun : s.run o with
      | looping l => exact h.turn hrun (hi l (by rw [hrun]; rfl))
      | _ => simpa [listeners, Listeners.step, Listeners.turn, hrun] using h

end Published

/-- In every interleaving of the start-up of any number of listeners with the turns of
those that run: behind the lock of its thread an object's store holds all its documents
and nobody writes to it, and what any connection of its loop is sent are the replies of
the directory of all these documents. -/
theorem listeners_serve {creator thread : O → T} {calls : O → List ParserCall}
    {s : Listeners O T} {log : List (ListenersEvent O T)}
    (h : (listeners creator thread).Reach ListenersInput.Fresh (Listeners.idle calls) s log)
    (o : O) :
    ((s.threads.entry o).through = true → s.mXmlData o = parseAll (calls o) ∧ s.toParse o = []) ∧
    ∀ l ∈ connections (servedBy o log),
      (∀ c ∈ Conversation.chunks l, ¬ Overruns (parseAll (calls o)) c) →
      Conversation.WritesWhole l →
      Conversation.written l =
        replies (directoryReply (documents (calls o))) (Conversation.chunks l) := by
  have hs : Published creator thread calls s log :=
    h.invariant (P := Published creator thread calls) (Published.idle calls)
      fun _ _ _ hs hi => hs.step hi
  refine ⟨hs.ready, fun l hl hsafe hwhole => ?_⟩
  have hserves := hs.serves o
  cases hrun : s.run o with
  | looping loop =>
      rw [hrun] at hserves
      obtain ⟨wakeupRead, wakeupWrite, listenFd, len, hreach⟩ := hserves
      rw [Conversation.written_of_whole hwhole,
        ((reach_tracks hreach).1.run.conversed l hl).answered hsafe,
        funext (reply_directory (calls o))]
  | _ =>
      rw [hrun] at hserves
      rw [show servedBy o log = [] from hserves] at hl
      exact absurd hl List.not_mem_nil

end Model

/-- The shipped server: its thread tries the lock between the steps of the constructor,
then serves a client that asks for the types. -/
def shippedStartup : List (ListenersInput Unit) :=
  (List.replicate 9 [.startup (.creator () true), .startup (.entry ())]).flatten ++
    [.startup (.entry ()), .startup (.entry ()), .setup () (some (3, 4)) 5 0 0,
      .turn () ⟨.ready 1 [5], (7, 2), fun _ => ⟨.failed, none, []⟩⟩,
      .turn () ⟨.ready 1 [7], (-1, 2), fun _ =>
        ⟨.chunk ⟨ascii "support_sdks", by decide⟩, some 7, []⟩⟩]

/-- The reply has the types of both documents. -/
theorem listeners_serve_shipped :
    let calls : Unit → List ParserCall := fun _ => ServerListener.parserCalls shipped
    let r := (listeners (fun _ => 0) (fun _ => 1)).run (Listeners.idle calls) shippedStartup
    ∃ l ∈ connections (servedBy () r.2), Conversation.written l = [ascii "SVR^LVR"] := by
  intro calls r
  have hreach : (listeners (fun _ => 0) (fun _ => 1)).Reach ListenersInput.Fresh
      (Listeners.idle calls) r.1 ([] ++ r.2) :=
    Machine.Reach.start.run (by decide +kernel)
  rw [List.nil_append] at hreach
  let l : Conversation := ⟨7, [.read (.chunk ⟨ascii "support_sdks", by decide⟩),
    .wrote (ascii "SVR^LVR") (some 7)], false⟩
  have hl : l ∈ connections (servedBy () r.2) := by decide +kernel
  have hsafe : ∀ c ∈ Conversation.chunks l, ¬ Overruns (parseAll (calls ())) c := by decide +kernel
  have hwhole : Conversation.WritesWhole l := by
    intro buf taken hmem
    simp only [l, List.mem_cons, reduceCtorEq, ConnAct.wrote.injEq, List.not_mem_nil, or_false,
      false_or] at hmem
    rw [hmem.2, hmem.1]
    rfl
  have hwritten := (listeners_serve hreach ()).2 l hl hsafe hwhole
  have hreplies : replies (directoryReply (documents (calls ()))) (Conversation.chunks l) =
      [ascii "SVR^LVR"] := by decide +kernel
  exact ⟨l, hl, hwritten.trans hreplies⟩

end VRAdmin
