import VRAdmin.Server.Framing

/-! # The server process

`main` starts the listener thread in the process that also hosts the binder service
and leaves the disposition of SIGPIPE as it is. A reply to a client that has closed
its end therefore ends the process, although `postSelect` has a branch for a failed
write.
-/

namespace VRAdmin

open Foundation ClientConnector

/-- The listener thread, and whether a signal has ended the process. -/
structure ServerProcess where
  listener : ServerListener
  terminated : Bool

/-- One turn, and the connections whose peer has closed by the time of the reply. -/
structure Moment where
  turn : Turn
  peerClosed : Int → Bool

/-- A write that raises SIGPIPE. -/
def sigpipe (peerClosed : Int → Bool) : Event → Bool
  | .write fd _ _ => peerClosed fd
  | _ => false

namespace ServerProcess

/-- A turn up to the write that ends the process. -/
def step (s : ServerProcess) (i : Moment) : ServerProcess × List Event :=
  if s.terminated then (s, [])
  else
    let (listener, evs) := s.listener.turn i.turn
    if evs.any (sigpipe i.peerClosed) then
      ({ s with terminated := true }, evs.takeWhile fun e => !sigpipe i.peerClosed e)
    else ({ s with listener := listener }, evs)

end ServerProcess

def serverProcess : Machine ServerProcess Moment Event := ⟨ServerProcess.step⟩

/-! ## What the kernel promises -/

/-- A descriptor of the listener that it has not closed. -/
def Opened (s : ServerListener) (log : List Event) (fd : Int) : Prop :=
  fd ∈ openConns log ∨ fd ∈ [s.mWakeupRead, s.mListenFd] ∧ .close fd ∉ log

/-- `select` fails with EINTR only, as long as the descriptors it polls are open, and
otherwise counts the polled descriptors that it leaves in the set. -/
def SelectAnswers (s : ServerListener) (log : List Event) : SelectResult → Prop
  | .failed errno => (∀ fd ∈ s.requestSet.1, Opened s log fd) → errno = eintr
  | .ready nfds rset => rset ⊆ s.requestSet.1 ∧ rset.Nodup ∧ nfds = rset.length

def KernelAnswers (s : ServerProcess) (log : List Event) (i : Moment) : Prop :=
  FreshAccept s.listener log i.turn ∧ SelectAnswers s.listener log i.turn.select

def SelectResult.rset : SelectResult → List Int
  | .failed _ => []
  | .ready _ rset => rset

/-- The read delivers a message that is answered. -/
def ReadResult.isRequest : ReadResult → Bool
  | .failed => false
  | .chunk c => !isQuit c

/-- The turn finds a request on this connection. -/
def Requests (t : Turn) (c : Int) : Prop :=
  c ∈ t.select.rset ∧ (t.io c).read.isRequest = true

/-- No client closes its end between its request and the reply. -/
def Patient (s : ServerProcess) (i : Moment) : Prop :=
  ∀ c ∈ s.listener.mConnectors, Requests i.turn c → i.peerClosed c = false

/-- The kernel keeps its promises, and the clients wait for their replies. -/
def Obliging (s : ServerProcess) (log : List Event) (i : Moment) : Prop :=
  KernelAnswers s log i ∧ Patient s i

instance (s : ServerListener) (log : List Event) (fd : Int) : Decidable (Opened s log fd) :=
  inferInstanceAs (Decidable (_ ∨ _))

instance (s : ServerListener) (log : List Event) (r : SelectResult) :
    Decidable (SelectAnswers s log r) := by
  cases r <;> unfold SelectAnswers <;> infer_instance

instance (s : ServerProcess) (log : List Event) (i : Moment) : Decidable (KernelAnswers s log i) :=
  inferInstanceAs (Decidable (_ ∧ _))

instance (s : ServerProcess) (log : List Event) (i : Moment) : Decidable (Obliging s log i) :=
  inferInstanceAs (Decidable (KernelAnswers s log i ∧
    ∀ c ∈ s.listener.mConnectors, (c ∈ i.turn.select.rset ∧ (i.turn.io c).read.isRequest = true) →
      i.peerClosed c = false))

/-! ## The descriptors that are polled -/

variable {db : XmlDatabase} {reserved : List Int} {s : ServerListener} {log : List Event}

theorem ConnRun.close_mem {k : ConnTable} (h : ConnRun db reserved log k) {fd : Int}
    (hfd : .close fd ∈ log) : fd ∉ reserved := by
  induction h with
  | start => simp at hfd
  | @next log evs k k' hrun hs ih =>
      rcases List.mem_append.mp hfd with hold | hnew
      · exact ih hold
      · cases hs with
        | idle hnone =>
            rw [← List.mem_singleton.mp hnew] at hnone
            exact nomatch hnone
        | accepted => simp at hnew
        | failed => simp at hnew
        | replied => simp at hnew
        | quit => simp at hnew
        | @dropped ids quitting c hc =>
            have hfd' : fd = c := by simpa using hnew
            rw [hfd']
            exact hrun.sound.ids_free c hc

theorem Tracks.polled_open (h : Tracks db reserved s log) {fd : Int}
    (hfd : fd ∈ s.requestSet.1) : Opened s log fd := by
  rw [requestSet_eq] at hfd
  rcases List.mem_append.mp hfd with hown | hconn
  · refine Or.inr ⟨hown, fun hclose => h.run.close_mem hclose ?_⟩
    rw [← h.reserved_eq]
    simp only [List.mem_cons, List.not_mem_nil, or_false] at hown ⊢
    omega
  · exact Or.inl (by rw [h.run.openConns_eq]; exact (List.mem_filter.mp hconn).1)

/-! ## The writes of a turn -/

theorem postSelect_write {conn : Int} {rset : List Int} {io : ConnIo} {fd : Int} {buf : Bytes}
    {taken : Option Nat} (h : .write fd buf taken ∈ (postSelect conn db rset io).2) :
    fd = conn ∧ conn ∈ rset ∧ io.read.isRequest = true := by
  unfold postSelect at h
  by_cases hready : conn < 0 ∨ conn ∉ rset
  · simp [hready] at h
  · rw [if_neg hready] at h
    cases hread : io.read with
    | failed => simp [hread] at h
    | chunk c =>
        rw [hread] at h
        cases hq : isQuit c with
        | true => simp [hq] at h
        | false =>
            have hfd : fd = conn := by
              simp [hq] at h
              exact h.1
            exact ⟨hfd, not_not.mp (not_or.mp hready).2, by simp [ReadResult.isRequest, hq]⟩

theorem postSelect_writes {conn : Int} (hpos : 0 < conn) {rset : List Int} (hready : conn ∈ rset)
    {io : ConnIo} (hread : io.read.isRequest = true) :
    ∃ buf, .write conn buf io.write ∈ (postSelect conn db rset io).2 := by
  have hserved : ¬ (conn < 0 ∨ conn ∉ rset) := by
    rintro (hneg | hnot)
    · omega
    · exact hnot hready
  unfold postSelect
  rw [if_neg hserved]
  cases hio : io.read with
  | failed => simp [hio, ReadResult.isRequest] at hread
  | chunk c =>
      have hq : isQuit c = false := by simpa [hio, ReadResult.isRequest] using hread
      exact ⟨answer db (rbuff c ++ io.behind), by simp [hq]⟩

theorem serve_write {rset : List Int} {io : Int → ConnIo} {conns : List Int} {fd : Int}
    {buf : Bytes} {taken : Option Nat}
    (h : .write fd buf taken ∈ (ServerListener.serve rset io conns s).2) :
    fd ∈ conns ∧ fd ∈ rset ∧ (io fd).read.isRequest = true := by
  induction conns generalizing s with
  | nil => simp [ServerListener.serve] at h
  | cons conn conns ih =>
      rw [ServerListener.serve] at h
      rcases List.mem_append.mp h with hfirst | hrest
      · obtain ⟨rfl, hready, hread⟩ := postSelect_write hfirst
        exact ⟨List.mem_cons_self, hready, hread⟩
      · obtain ⟨hmem, hready, hread⟩ := ih hrest
        exact ⟨List.mem_cons_of_mem conn hmem, hready, hread⟩

theorem serve_writes {rset : List Int} {io : Int → ConnIo} {conns : List Int} {fd : Int}
    (hmem : fd ∈ conns) (hpos : 0 < fd) (hready : fd ∈ rset)
    (hread : (io fd).read.isRequest = true) :
    ∃ buf, .write fd buf (io fd).write ∈ (ServerListener.serve rset io conns s).2 := by
  induction conns generalizing s with
  | nil => exact nomatch hmem
  | cons conn conns ih =>
      rw [ServerListener.serve]
      rcases List.mem_cons.mp hmem with rfl | hmem
      · have hwrites : ∃ buf, .write fd buf (io fd).write ∈
            (postSelect fd s.mXmlData rset (io fd)).2 := postSelect_writes hpos hready hread
        obtain ⟨buf, hbuf⟩ := hwrites
        exact ⟨buf, List.mem_append_left _ hbuf⟩
      · obtain ⟨buf, hbuf⟩ := ih hmem
        exact ⟨buf, List.mem_append_right _ hbuf⟩

theorem dropAll_write (quitting : List Int) (s : ServerListener) (fd : Int) (buf : Bytes)
    (taken : Option Nat) : .write fd buf taken ∉ (ServerListener.dropAll quitting s).2 := by
  induction quitting generalizing s with
  | nil => simp [ServerListener.dropAll]
  | cons conn rest ih =>
      rw [ServerListener.dropAll]
      simpa using ih (s.delConnector conn)

theorem reap_write (s : ServerListener) (fd : Int) (buf : Bytes) (taken : Option Nat) :
    .write fd buf taken ∉ s.reap.2 := by
  unfold ServerListener.reap
  split
  · exact dropAll_write s.quitConns s fd buf taken
  · simp

theorem acceptClient_frame (s : ServerListener) (answer : Int × UInt32) :
    (s.acceptClient answer).1.mListenFd = s.mListenFd ∧
      (s.acceptClient answer).1.returned = s.returned ∧
      (∀ c ∈ s.mConnectors, c ∈ (s.acceptClient answer).1.mConnectors) ∧
      (∀ c ∈ (s.acceptClient answer).1.mConnectors, c ∈ s.mConnectors ∨ c = answer.1 ∧ 0 < c) ∧
      ∀ fd buf taken, .write fd buf taken ∉ (s.acceptClient answer).2 := by
  unfold ServerListener.acceptClient
  by_cases hpos : answer.1 > 0
  · by_cases hmem : answer.1 ∈ s.mConnectors
    · simp only [hpos, if_true, ServerListener.addConnector, hmem]
      exact ⟨trivial, trivial, fun c hc => hc, fun c hc => Or.inl hc, by simp⟩
    · simp only [hpos, if_true, ServerListener.addConnector, hmem, if_false]
      refine ⟨trivial, trivial, fun c hc => List.mem_append_left _ hc, fun c hc => ?_, by simp⟩
      rcases List.mem_append.mp hc with hc | hc
      · exact Or.inl hc
      · have heq := List.mem_singleton.mp hc
        exact Or.inr ⟨heq, by omega⟩
  · simp only [hpos, if_false]
    exact ⟨trivial, trivial, fun c hc => hc, fun c hc => Or.inl hc, by simp⟩

theorem accept_frame (s : ServerListener) (t : Turn) (rset : List Int) :
    ∃ s' evs, (if s.mListenFd ∈ rset then s.acceptClient t.accept else (s, [])) = (s', evs) ∧
      s'.mListenFd = s.mListenFd ∧ s'.returned = s.returned ∧
      (∀ c ∈ s.mConnectors, c ∈ s'.mConnectors) ∧
      (∀ c ∈ s'.mConnectors, c ∈ s.mConnectors ∨ c = t.accept.1 ∧ 0 < c) ∧
      ∀ fd buf taken, .write fd buf taken ∉ evs := by
  by_cases hl : s.mListenFd ∈ rset
  · rw [if_pos hl]
    exact ⟨_, _, rfl, acceptClient_frame s t.accept⟩
  · rw [if_neg hl]
    exact ⟨s, [], rfl, rfl, rfl, fun c hc => hc, fun c hc => Or.inl hc, by simp⟩

theorem serveTurn_write {t : Turn} {nfds : Int} {rset : List Int} {fd : Int} {buf : Bytes}
    {taken : Option Nat} (h : .write fd buf taken ∈ (s.serveTurn t nfds rset).2) :
    (fd ∈ s.mConnectors ∨ fd = t.accept.1 ∧ 0 < fd) ∧ fd ∈ rset ∧
      (t.io fd).read.isRequest = true := by
  obtain ⟨s', evs, heq, -, -, -, hback, hquiet⟩ := accept_frame s t rset
  unfold ServerListener.serveTurn at h
  rw [heq] at h
  dsimp only at h
  split at h
  · exact absurd h (hquiet fd buf taken)
  · rcases List.mem_append.mp h with h | h
    · rcases List.mem_append.mp h with h | h
      · exact absurd h (hquiet fd buf taken)
      · obtain ⟨hmem, hready, hread⟩ := serve_write h
        exact ⟨hback fd hmem, hready, hread⟩
    · exact absurd h (reap_write _ fd buf taken)

theorem serveTurn_writes {t : Turn} {nfds : Int} {rset : List Int} {fd : Int}
    (hturn : ¬ (s.mListenFd ∈ rset ∧ nfds = 1)) (hmem : fd ∈ s.mConnectors) (hpos : 0 < fd)
    (hready : fd ∈ rset) (hread : (t.io fd).read.isRequest = true) :
    ∃ buf, .write fd buf (t.io fd).write ∈ (s.serveTurn t nfds rset).2 := by
  obtain ⟨s', evs, heq, hlisten, -, hkept, -⟩ := accept_frame s t rset
  obtain ⟨buf, hbuf⟩ := serve_writes (s := s') (hkept fd hmem) hpos hready hread
  refine ⟨buf, ?_⟩
  unfold ServerListener.serveTurn
  rw [heq]
  dsimp only
  rw [hlisten, if_neg hturn]
  exact List.mem_append_left _ (List.mem_append_right _ hbuf)

/-- A turn writes to connections from which it reads a request, or to the one that it
has just accepted. -/
theorem turn_write {t : Turn} {fd : Int} {buf : Bytes} {taken : Option Nat}
    (h : .write fd buf taken ∈ (s.turn t).2) :
    (fd ∈ s.mConnectors ∨ fd = t.accept.1 ∧ 0 < fd) ∧ Requests t fd := by
  unfold ServerListener.turn at h
  split at h
  · exact nomatch h
  · cases hselect : t.select with
    | failed errno => simp [hselect] at h
    | ready nfds rset =>
        rw [hselect] at h
        dsimp only at h
        have hwoken : ∀ e ∈ (if s.mWakeupRead ∈ rset then [Event.readWakeup s.mWakeupRead] else []),
            e ≠ .write fd buf taken := by
          intro e he
          split at he
          · rw [List.mem_singleton.mp he]
            exact nofun
          · exact nomatch he
        split at h
        · rcases List.mem_cons.mp h with h | h
          · exact nomatch h
          · exact absurd rfl (hwoken _ h)
        · rcases List.mem_append.mp h with h | h
          · rcases List.mem_cons.mp h with h | h
            · exact nomatch h
            · exact absurd rfl (hwoken _ h)
          · obtain ⟨hmem, hready, hread⟩ := serveTurn_write h
            exact ⟨hmem, by rwa [hselect], hread⟩

theorem Tracks.turn_writes (h : Tracks db reserved s log) (hrun : s.returned = false) {t : Turn}
    (hselect : SelectAnswers s log t.select) {c : Int} (hmem : c ∈ s.mConnectors)
    (hc : Requests t c) :
    ∃ buf, .write c buf (t.io c).write ∈ (s.turn t).2 := by
  obtain ⟨hrset, hread⟩ := hc
  cases hready : t.select with
  | failed errno => simp [hready, SelectResult.rset] at hrset
  | ready nfds rset =>
      rw [hready] at hselect hrset
      obtain ⟨-, -, hcount⟩ := hselect
      have hsound := h.run.sound
      have hfree := hsound.ids_free c hmem
      rw [← h.reserved_eq] at hfree
      simp only [List.mem_cons, List.not_mem_nil, or_false, not_or] at hfree
      have hmany (fd : Int) (hne : c ≠ fd) : ¬ (fd ∈ rset ∧ nfds = 1) := by
        rintro ⟨hfd, hone⟩
        obtain ⟨x, hx⟩ := List.length_eq_one_iff.mp (show rset.length = 1 by omega)
        rw [hx] at hfd
        rw [SelectResult.rset, hx] at hrset
        exact hne ((List.mem_singleton.mp hrset).trans (List.mem_singleton.mp hfd).symm)
      obtain ⟨buf, hbuf⟩ := serveTurn_writes (hmany s.mListenFd hfree.2.2) hmem
        (hsound.ids_pos c hmem) hrset hread
      refine ⟨buf, ?_⟩
      unfold ServerListener.turn
      simp only [hrun, Bool.false_eq_true, if_false, hready, hmany s.mWakeupRead hfree.1]
      exact List.mem_append_right _ hbuf

theorem serveTurn_returned (s : ServerListener) (t : Turn) (nfds : Int) (rset : List Int) :
    (s.serveTurn t nfds rset).1.returned = s.returned := by
  obtain ⟨s', evs, heq, -, hkept, -⟩ := accept_frame s t rset
  unfold ServerListener.serveTurn
  rw [heq]
  dsimp only
  split
  · exact hkept
  · rw [Tracks.reap_frame, Tracks.serve_frame, hkept]

/-- The loop returns only when `select` fails otherwise than the kernel promises. -/
theorem Tracks.turn_returned (h : Tracks db reserved s log) (hrun : s.returned = false) {t : Turn}
    (hselect : SelectAnswers s log t.select) : (s.turn t).1.returned = false := by
  unfold ServerListener.turn
  simp only [hrun, Bool.false_eq_true, if_false]
  cases ht : t.select with
  | failed errno =>
      rw [ht] at hselect
      have hintr : errno = eintr := hselect fun fd hfd => h.polled_open hfd
      simp only [hintr, if_true]
      exact hrun
  | ready nfds rset =>
      dsimp only
      split
      · exact hrun
      · exact (serveTurn_returned s t nfds rset).trans hrun

namespace ServerProcess

variable {p : ServerProcess} {i : Moment}

theorem step_alive (hlive : p.terminated = false)
    (hquiet : (p.listener.turn i.turn).2.any (sigpipe i.peerClosed) = false) :
    serverProcess.step p i =
      ({ p with listener := (p.listener.turn i.turn).1 }, (p.listener.turn i.turn).2) := by
  simp only [serverProcess, step, hlive, Bool.false_eq_true, if_false, hquiet]

theorem step_terminated (hlive : p.terminated = false)
    (hfatal : (p.listener.turn i.turn).2.any (sigpipe i.peerClosed) = true) :
    (serverProcess.step p i).1.terminated = true := by
  simp only [serverProcess, step, hlive, Bool.false_eq_true, if_false, hfatal, if_true]

end ServerProcess

/-- Between two turns of patient clients the process is alive and its listener is that
of a run of the select loop. -/
structure Alive (start : ServerListener) (p : ServerProcess) (log : List Event) : Prop where
  live : p.terminated = false
  running : p.listener.returned = false
  reach : serverLoop.Reach FreshAccept start p.listener log

theorem turn_quiet {p : ServerProcess} {i : Moment} (hi : Obliging p log i) :
    (p.listener.turn i.turn).2.any (sigpipe i.peerClosed) = false := by
  obtain ⟨⟨hfresh, hanswers⟩, hpatient⟩ := hi
  rw [List.any_eq_false]
  intro e he
  cases e with
  | write fd buf taken =>
      obtain ⟨hmem, hrequest⟩ := turn_write he
      have hpolled : fd ∈ p.listener.requestSet.1 := by
        have hrset := hrequest.1
        cases hselect : i.turn.select with
        | failed errno => simp [hselect, SelectResult.rset] at hrset
        | ready nfds rset =>
            rw [hselect] at hrset hanswers
            exact hanswers.1 hrset
      have hconn : fd ∈ p.listener.mConnectors := by
        rcases hmem with hmem | ⟨hfd, hpos⟩
        · exact hmem
        · -- A client that has just been accepted was not polled.
          rw [requestSet_eq] at hpolled
          rcases List.mem_append.mp hpolled with hown | hconn
          · rcases hfresh with hnone | ⟨-, -, hfree⟩
            · omega
            · rw [← hfd] at hfree
              simp only [List.mem_cons, List.not_mem_nil, or_false, not_or] at hown hfree
              omega
          · exact (List.mem_filter.mp hconn).1
      simp [sigpipe, hpatient fd hconn hrequest]
  | _ => simp [sigpipe]

theorem reach_alive {start : ServerListener} {db : XmlDatabase} {w r l : Int} {len : UInt32}
    (hstart : start = ServerListener.start w r l db len) {p : ServerProcess} {log : List Event}
    (h : serverProcess.Reach Obliging ⟨start, false⟩ p log) : Alive start p log := by
  subst hstart
  refine h.invariant (P := Alive _) ⟨rfl, rfl, .start⟩ fun p log i hp hi => ?_
  obtain ⟨htracks, -⟩ := reach_tracks hp.reach
  rw [ServerProcess.step_alive hp.live (turn_quiet hi)]
  exact ⟨hp.live, htracks.turn_returned hp.running hi.1.2, hp.reach.next hi.1.1⟩

theorem setup_start {db : XmlDatabase} {pipe : Option (Int × Int)} {listenfd listen : Int}
    {len : UInt32} {start : ServerListener}
    (h : ServerListener.setup db pipe listenfd listen len = some start) :
    ∃ w r, start = ServerListener.start w r listenfd db len := by
  unfold ServerListener.setup at h
  split at h
  · exact nomatch h
  · cases pipe with
    | none => exact nomatch h
    | some rwfds =>
        dsimp only at h
        split at h
        · exact nomatch h
        · exact ⟨rwfds.1, rwfds.2, (Option.some.inj h).symm⟩

/-- As long as every client keeps its end open from its request to the reply, the
process is never terminated and the loop never returns. The next turn terminates the
process exactly when a client from which it reads a request has closed its end by
the time of the reply. -/
theorem server_survives {db : XmlDatabase} {pipe : Option (Int × Int)} {listenfd listen : Int}
    {len : UInt32} {start : ServerListener}
    (hsetup : ServerListener.setup db pipe listenfd listen len = some start)
    {p : ServerProcess} {log : List Event}
    (h : serverProcess.Reach Obliging ⟨start, false⟩ p log) :
    p.terminated = false ∧ p.listener.returned = false ∧
    ∀ i, KernelAnswers p log i →
      ((serverProcess.step p i).1.terminated = true ↔ ¬ Patient p i) := by
  obtain ⟨w, r, hstart⟩ := setup_start hsetup
  have halive := reach_alive hstart h
  refine ⟨halive.live, halive.running, fun i hi => ⟨?_, ?_⟩⟩
  · intro hdead hpatient
    rw [ServerProcess.step_alive halive.live (turn_quiet ⟨hi, hpatient⟩)] at hdead
    exact absurd (halive.live.symm.trans hdead) (by decide)
  · intro himpatient
    simp only [Patient, not_forall, Bool.not_eq_false] at himpatient
    obtain ⟨c, hc, hrequest, hclosed⟩ := himpatient
    subst hstart
    obtain ⟨htracks, -⟩ := reach_tracks halive.reach
    obtain ⟨buf, hbuf⟩ := htracks.turn_writes halive.running hi.2 hc hrequest
    exact ServerProcess.step_terminated halive.live (List.any_eq_true.mpr ⟨_, hbuf, hclosed⟩)

/-- A client connects. -/
def connecting : Moment :=
  ⟨⟨.ready 1 [5], (7, 2), fun _ => ⟨.failed, none, []⟩⟩, fun _ => false⟩

/-- The client sends a command, and it may have closed its end when the reply is written. -/
def asking (peerClosed : Bool) : Moment :=
  ⟨⟨.ready 1 [7], (-1, 2),
    fun _ => ⟨.chunk lvrVersion.chunk, if peerClosed then none else some 1, []⟩⟩,
    fun _ => peerClosed⟩

/-- A client waits for one reply and closes its end before the next. -/
theorem server_survives_version :
    let p := serverProcess.run ⟨ServerListener.start 3 4 5 longVersionStore 0, false⟩
      [connecting, asking false]
    p.1.terminated = false ∧ (serverProcess.step p.1 (asking true)).1.terminated = true := by
  intro p
  have hsetup : ServerListener.setup longVersionStore (some (3, 4)) 5 0 0 =
      some (ServerListener.start 3 4 5 longVersionStore 0) := rfl
  have hreach : serverProcess.Reach Obliging
      ⟨ServerListener.start 3 4 5 longVersionStore 0, false⟩ p.1 ([] ++ p.2) :=
    Machine.Reach.start.run (by decide +kernel)
  obtain ⟨hlive, -, hnext⟩ := server_survives hsetup hreach
  refine ⟨hlive, (hnext (asking true) (by decide +kernel)).mpr fun hpatient => ?_⟩
  have hopen : (true : Bool) = false := hpatient 7 (by decide +kernel) ⟨by decide, by decide⟩
  exact nomatch hopen

/-- A client that sends one command and closes its end ends the process. -/
theorem server_survives_fails :
    ¬ ∀ (db : XmlDatabase) (pipe : Option (Int × Int)) (listenfd listen : Int) (len : UInt32)
        (start : ServerListener), ServerListener.setup db pipe listenfd listen len = some start →
      ∀ (p : ServerProcess) (log : List Event),
        serverProcess.Reach KernelAnswers ⟨start, false⟩ p log →
        p.terminated = false ∧ p.listener.returned = false := by
  intro hall
  have hsetup : ServerListener.setup longVersionStore (some (3, 4)) 5 0 0 =
      some (ServerListener.start 3 4 5 longVersionStore 0) := rfl
  have hadmits : serverProcess.Admits KernelAnswers
      ⟨ServerListener.start 3 4 5 longVersionStore 0, false⟩ [] [connecting, asking true] := by
    decide +kernel
  have hlive := (hall _ _ _ _ _ _ hsetup _ _ (Machine.Reach.start.run hadmits)).1
  exact absurd hlive (by decide +kernel)

end VRAdmin
