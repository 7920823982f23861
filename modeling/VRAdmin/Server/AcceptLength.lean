import VRAdmin.Server.Protocol

/-! # The address length handed to accept

`run` hands `accept` the address of its local `len`, which it never sets. What the
variable holds on entry is the size that the first `accept` is given; each later one is
given what the last successful one left there. A size that is negative as an `int` makes
`accept` fail with `EINVAL` and leaves `len` as it is.
-/

namespace VRAdmin

open Foundation ClientConnector

/-- `sizeof(struct sockaddr_un)`: a family of two bytes and a path of 108. -/
def sizeofSockaddrUn : Int32 := 110

/-- A size that `cliaddr` has room for, read as the kernel reads it. -/
def ValidLength (len : UInt32) : Prop := 0 ≤ len.toInt32 ∧ len.toInt32 ≤ sizeofSockaddrUn

/-- `accept` fails with `EINVAL`. -/
def Einval (len : UInt32) : Prop := len.toInt32 < 0

instance (len : UInt32) : Decidable (ValidLength len) := inferInstanceAs (Decidable (_ ∧ _))

instance (len : UInt32) : Decidable (Einval len) := inferInstanceAs (Decidable (_ < _))

theorem ValidLength.not_einval {len : UInt32} (h : ValidLength len) : ¬ Einval len :=
  Int32.not_lt.mpr h.1

/-- The answers of Linux to an `accept` that is given `len`, when the addresses of the
peers have the lengths `peers`: a call that is given an invalid size fails, a call that
fails stores no length, and one that succeeds stores the length of the peer's address,
also when `cliaddr` has no room for it. -/
def LinuxAccept (peers : UInt32 → Prop) (len : UInt32) (answer : Int × UInt32) : Prop :=
  answer = (-1, len) ∨ ¬ Einval len ∧ 0 < answer.1 ∧ peers answer.2

/-- What the kernel does in a turn. -/
def KernelTurn (peers : UInt32 → Prop) (s : ServerListener) (log : List Event) (t : Turn) :
    Prop :=
  FreshAccept s log t ∧ LinuxAccept peers s.len t.accept

/-- Every `accept` of the log is given a valid size, so that it does not fail with
`EINVAL`, and the connection it returns gets a connector at once. -/
def Taken : List Event → Prop
  | [] => True
  | .accept _ len confd :: rest =>
      (ValidLength len ∧ ¬ Einval len ∧
        (0 < confd → rest.head? = some (.addConnector confd 0))) ∧ Taken rest
  | _ :: rest => Taken rest

theorem Taken.tail {e : Event} {log : List Event} (h : Taken (e :: log)) : Taken log := by
  cases e with
  | accept => exact h.2
  | select | readWakeup | addConnector | read | write | delConnector | close => exact h

theorem Taken.append {first second : List Event} (h : Taken first) (h' : Taken second) :
    Taken (first ++ second) := by
  induction first with
  | nil => exact h'
  | cons e rest ih =>
      have hrest := ih h.tail
      cases e with
      | accept fd len confd =>
          obtain ⟨⟨hvalid, hnot, hadded⟩, -⟩ := h
          refine ⟨⟨hvalid, hnot, fun hpos => ?_⟩, hrest⟩
          show (rest ++ second).head? = _
          rw [List.head?_append, hadded hpos]
          rfl
      | select | readWakeup | addConnector | read | write | delConnector | close => exact hrest

theorem Taken.valid {log : List Event} (h : Taken log) {fd confd : Int} {len : UInt32}
    (hmem : .accept fd len confd ∈ log) : ValidLength len := by
  induction log with
  | nil => cases hmem
  | cons e rest ih =>
      rcases List.mem_cons.mp hmem with rfl | hmem
      · exact h.1.1
      · exact ih h.tail hmem

/-! ## The pieces of a turn -/

section Turn

variable {s : ServerListener}

theorem acceptClient_taken (hvalid : ValidLength s.len) {answer : Int × UInt32}
    (hnew : 0 < answer.1 → answer.1 ∉ s.mConnectors) : Taken (s.acceptClient answer).2 := by
  unfold ServerListener.acceptClient
  by_cases hpos : answer.1 > 0
  · simp only [hpos, if_true, ServerListener.addConnector, hnew hpos, if_false]
    exact ⟨⟨hvalid, hvalid.not_einval, fun _ => rfl⟩, trivial⟩
  · simp only [hpos, if_false]
    exact ⟨⟨hvalid, hvalid.not_einval, fun h => absurd h hpos⟩, trivial⟩

theorem acceptClient_len (s : ServerListener) (answer : Int × UInt32) :
    (s.acceptClient answer).1.len = answer.2 := by
  unfold ServerListener.acceptClient ServerListener.addConnector
  dsimp only
  split
  · split <;> rfl
  · rfl

theorem postSelect_taken (conn : Int) (db : XmlDatabase) (rset : List Int) (io : ConnIo) :
    Taken (postSelect conn db rset io).2 := by
  rcases postSelect_cases conn db rset io with
    ⟨-, heq⟩ | ⟨-, heq | ⟨c, -, heq⟩ | ⟨c, ret, -, -, heq⟩⟩
  · rw [heq]
    trivial
  · rw [heq]
    trivial
  · rw [heq]
    trivial
  · rw [heq]
    trivial

theorem serve_taken (rset : List Int) (io : Int → ConnIo) (conns : List Int)
    (s : ServerListener) : Taken (ServerListener.serve rset io conns s).2 := by
  induction conns generalizing s with
  | nil => trivial
  | cons conn rest ih =>
      rw [ServerListener.serve]
      exact (postSelect_taken conn s.mXmlData rset (io conn)).append (ih _)

theorem dropAll_taken (quitting : List Int) (s : ServerListener) :
    Taken (ServerListener.dropAll quitting s).2 := by
  induction quitting generalizing s with
  | nil => trivial
  | cons conn rest ih => exact ih _

theorem reap_taken (s : ServerListener) : Taken s.reap.2 := by
  unfold ServerListener.reap
  split
  · exact dropAll_taken s.quitConns s
  · trivial

/-- A turn that is entered with a valid `len` calls `accept` at most once, with this `len`,
and leaves a valid one. -/
theorem serveTurn_taken (hvalid : ValidLength s.len) {t : Turn}
    (hnew : 0 < t.accept.1 → t.accept.1 ∉ s.mConnectors) (hafter : ValidLength t.accept.2)
    (nfds : Int) (rset : List Int) :
    Taken (s.serveTurn t nfds rset).2 ∧ ValidLength (s.serveTurn t nfds rset).1.len := by
  have haccept : ∃ s' evs,
      (if s.mListenFd ∈ rset then s.acceptClient t.accept else (s, [])) = (s', evs) ∧
        Taken evs ∧ ValidLength s'.len := by
    by_cases hlisten : s.mListenFd ∈ rset
    · rw [if_pos hlisten]
      have hlen : ValidLength (s.acceptClient t.accept).1.len := by rwa [acceptClient_len]
      exact ⟨_, _, rfl, acceptClient_taken hvalid hnew, hlen⟩
    · rw [if_neg hlisten]
      exact ⟨s, [], rfl, trivial, hvalid⟩
  obtain ⟨s', evs, heq, htaken, hlen⟩ := haccept
  unfold ServerListener.serveTurn
  rw [heq]
  dsimp only
  split
  · exact ⟨htaken, hlen⟩
  · refine ⟨(htaken.append (serve_taken rset t.io s'.mConnectors s')).append (reap_taken _), ?_⟩
    rwa [Tracks.reap_frame, Tracks.serve_frame]

theorem turn_taken (hvalid : ValidLength s.len) {t : Turn}
    (hnew : 0 < t.accept.1 → t.accept.1 ∉ s.mConnectors) (hafter : ValidLength t.accept.2) :
    Taken (s.turn t).2 ∧ ValidLength (s.turn t).1.len := by
  unfold ServerListener.turn
  split
  · exact ⟨trivial, hvalid⟩
  · cases t.select with
    | failed errno =>
        dsimp only
        split
        · exact ⟨trivial, hvalid⟩
        · exact ⟨trivial, hvalid⟩
    | ready nfds rset =>
        dsimp only
        have hwoken : Taken (.select s.requestSet.2 s.requestSet.1 ::
            if s.mWakeupRead ∈ rset then [Event.readWakeup s.mWakeupRead] else []) := by
          split
          · trivial
          · trivial
        split
        · exact ⟨hwoken, hvalid⟩
        · obtain ⟨hserved, hlen⟩ := serveTurn_taken hvalid hnew hafter nfds rset
          exact ⟨hwoken.append hserved, hlen⟩

/-- A turn in which the listening socket is not the only ready descriptor goes through
to its end, and the next one starts with the length that this `accept` left. -/
theorem turn_accepts (hrunning : s.returned = false) {t : Turn} {nfds : Int} {rset : List Int}
    (hready : t.select = .ready nfds rset) (hmany : nfds ≠ 1) (hlisten : s.mListenFd ∈ rset) :
    .accept s.mListenFd s.len t.accept.1 ∈ (s.turn t).2 ∧ (s.turn t).1.returned = false ∧
      (s.turn t).1.mListenFd = s.mListenFd ∧ (s.turn t).1.len = t.accept.2 := by
  have haccept : .accept s.mListenFd s.len t.accept.1 ∈ (s.acceptClient t.accept).2 := by
    unfold ServerListener.acceptClient
    split
    · exact List.mem_cons_self
    · exact List.mem_cons_self
  have hframe : (s.acceptClient t.accept).1.returned = s.returned ∧
      (s.acceptClient t.accept).1.mListenFd = s.mListenFd := by
    unfold ServerListener.acceptClient ServerListener.addConnector
    dsimp only
    split
    · split <;> exact ⟨rfl, rfl⟩
    · exact ⟨rfl, rfl⟩
  have hlen := acceptClient_len s t.accept
  unfold ServerListener.turn ServerListener.serveTurn
  simp only [hrunning, Bool.false_eq_true, if_false, hready, hmany, and_false, hlisten, if_true]
  refine ⟨?_, ?_⟩
  · exact List.mem_append_right _ (List.mem_append_left _ (List.mem_append_left _ haccept))
  · rw [Tracks.reap_frame, Tracks.serve_frame]
    exact ⟨hframe.1.trans hrunning, hframe.2, hlen⟩

end Turn

/-! ## Whole runs -/

variable {db : XmlDatabase} {wakeupRead wakeupWrite listenFd : Int} {len : UInt32}
  {s : ServerListener} {log : List Event}

/-- What a turn finds: the connectors are the open connections, `len` is valid, and so
far every connection was taken. -/
structure Accepting (db : XmlDatabase) (reserved : List Int) (s : ServerListener)
    (log : List Event) : Prop where
  tracks : Tracks db reserved s log
  no_quit : s.quitConns = []
  valid : ValidLength s.len
  taken : Taken log

theorem Accepting.turn {reserved : List Int} {peers : UInt32 → Prop}
    (hpeers : ∀ l, peers l → ValidLength l) (h : Accepting db reserved s log) {t : Turn}
    (ht : KernelTurn peers s log t) :
    Accepting db reserved (s.turn t).1 (log ++ (s.turn t).2) := by
  obtain ⟨hfresh, hanswer⟩ := ht
  have hnew : 0 < t.accept.1 → t.accept.1 ∉ s.mConnectors := by
    intro hpos
    rcases hfresh with hnone | ⟨-, hopen, -⟩
    · omega
    · rwa [h.tracks.run.openConns_eq] at hopen
  have hafter : ValidLength t.accept.2 := by
    rcases hanswer with hfailed | ⟨-, -, hpeer⟩
    · rw [hfailed]
      exact h.valid
    · exact hpeers _ hpeer
  obtain ⟨htracks, hquit⟩ := h.tracks.turn h.no_quit hfresh
  obtain ⟨htaken, hlen⟩ := turn_taken h.valid hnew hafter
  exact ⟨htracks, hquit, hlen, h.taken.append htaken⟩

theorem reach_accepting {peers : UInt32 → Prop} (hpeers : ∀ l, peers l → ValidLength l)
    (hlen : ValidLength len)
    (h : serverLoop.Reach (KernelTurn peers)
      (ServerListener.start wakeupRead wakeupWrite listenFd db len) s log) :
    Accepting db [wakeupRead, wakeupWrite, listenFd] s log :=
  h.invariant ⟨⟨.start, rfl, rfl, by simp [ServerListener.start]⟩, rfl, hlen, trivial⟩
    fun _ _ _ hs ht => hs.turn hpeers ht

/-- A turn in which the wake-up pipe and the listening socket are ready. -/
def acceptTurn (wakeupRead listenFd : Int) (answer : Int × UInt32) : Turn :=
  ⟨.ready 2 [wakeupRead, listenFd], answer, fun _ => ⟨.failed, none, []⟩⟩

/-- The next `accept` of a loop that runs is given what `len` holds. -/
theorem next_length {peers : UInt32 → Prop} {s₀ : ServerListener}
    (hall : ∀ s log, serverLoop.Reach (KernelTurn peers) s₀ s log → Taken log)
    (h : serverLoop.Reach (KernelTurn peers) s₀ s log) (hrunning : s.returned = false) :
    ValidLength s.len := by
  have hkernel : KernelTurn peers s log (acceptTurn s.mWakeupRead s.mListenFd (-1, s.len)) :=
    ⟨Or.inl rfl, Or.inl rfl⟩
  have haccepts := turn_accepts (t := acceptTurn s.mWakeupRead s.mListenFd (-1, s.len)) hrunning
    rfl (by decide) (by simp)
  exact (hall _ _ (h.next hkernel)).valid (List.mem_append_right log haccepts.1)

/-- In every run each `accept` is given a valid size and each connection gets its
connector, exactly when `len` holds a valid size on entry and the address of every peer
has one. -/
theorem accept_lengths (wakeupRead wakeupWrite listenFd : Int) (db : XmlDatabase)
    (len : UInt32) (peers : UInt32 → Prop) :
    (∀ s log, serverLoop.Reach (KernelTurn peers)
        (ServerListener.start wakeupRead wakeupWrite listenFd db len) s log → Taken log) ↔
      ValidLength len ∧ ∀ l, peers l → ValidLength l := by
  constructor
  · intro hall
    have hlen : ValidLength len := next_length hall Machine.Reach.start rfl
    refine ⟨hlen, fun l hl => ?_⟩
    -- a peer with an address of this length, under a descriptor that is new
    obtain ⟨c, hpos, hnew⟩ : ∃ c : Int, 0 < c ∧ c ∉ [wakeupRead, wakeupWrite, listenFd] := by
      refine ⟨max 0 (max wakeupRead (max wakeupWrite listenFd)) + 1, by omega, ?_⟩
      simp only [List.mem_cons, List.not_mem_nil, or_false]
      omega
    let s₀ := ServerListener.start wakeupRead wakeupWrite listenFd db len
    let t := acceptTurn wakeupRead listenFd (c, l)
    have hfirst : serverLoop.Reach (KernelTurn peers) s₀ (s₀.turn t).1 ([] ++ (s₀.turn t).2) :=
      Machine.Reach.start.next
        ⟨Or.inr ⟨hpos, List.not_mem_nil, hnew⟩, Or.inr ⟨hlen.not_einval, hpos, hl⟩⟩
    have hlisten : s₀.mListenFd ∈ [wakeupRead, listenFd] := by simp [s₀, ServerListener.start]
    obtain ⟨-, hrunning, -, hstored⟩ :=
      turn_accepts (s := s₀) (t := t) rfl rfl (by decide) hlisten
    have hvalid := next_length hall hfirst hrunning
    rwa [hstored] at hvalid
  · rintro ⟨hlen, hpeers⟩ s log h
    exact (reach_accepting hpeers hlen h).taken

/-- A stack that held -1, and peers without a name. -/
theorem accept_lengths_negative :
    ¬ ∀ (len : UInt32) (s : ServerListener) (log : List Event),
      serverLoop.Reach (KernelTurn (· = 2)) (ServerListener.start 3 4 5 XmlDatabase.empty len)
        s log → Taken log := by
  intro hall
  have hvalid : ValidLength (0xFFFFFFFF : UInt32) :=
    next_length (hall 0xFFFFFFFF) Machine.Reach.start rfl
  exact absurd hvalid (by decide)

/-! ## A negative length -/

/-- A listener without connectors that has nothing to remove. -/
structure Unconnected (s : ServerListener) : Prop where
  none_connected : s.mConnectors = []
  none_quitting : s.rQuit = false

theorem acceptClient_failed (s : ServerListener) :
    s.acceptClient (-1, s.len) = (s, [.accept s.mListenFd s.len (-1)]) := rfl

theorem Unconnected.serveTurn (h : Unconnected s) {t : Turn} (ht : t.accept = (-1, s.len))
    (nfds : Int) (rset : List Int) :
    s.serveTurn t nfds rset =
      (s, if s.mListenFd ∈ rset then [.accept s.mListenFd s.len (-1)] else []) := by
  have hserve : ServerListener.serve rset t.io s.mConnectors s = (s, []) := by
    rw [h.none_connected]
    rfl
  have hreap : s.reap = (s, []) := by
    rw [ServerListener.reap, h.none_quitting]
    rfl
  unfold ServerListener.serveTurn
  rw [ht, acceptClient_failed]
  by_cases hlisten : s.mListenFd ∈ rset
  · simp only [hlisten, if_true, hserve, hreap, List.append_nil]
    split <;> rfl
  · simp only [hlisten, if_false, false_and, hserve, hreap, List.append_nil]

/-- A turn in which `accept` fails changes nothing but `returned`, and nobody gets a
connector. -/
theorem Unconnected.turn (h : Unconnected s) {t : Turn} (ht : t.accept = (-1, s.len)) :
    (∃ returned, (s.turn t).1 = { s with returned := returned }) ∧
      ∀ c ret, .addConnector c ret ∉ (s.turn t).2 := by
  unfold ServerListener.turn
  split
  · exact ⟨⟨s.returned, rfl⟩, by simp⟩
  · cases t.select with
    | failed errno =>
        dsimp only
        split
        · exact ⟨⟨s.returned, rfl⟩, by simp⟩
        · exact ⟨⟨true, rfl⟩, by simp⟩
    | ready nfds rset =>
        dsimp only
        rw [h.serveTurn ht]
        split
        · refine ⟨⟨s.returned, rfl⟩, fun c ret => ?_⟩
          split <;> simp
        · refine ⟨⟨s.returned, rfl⟩, fun c ret => ?_⟩
          dsimp only
          split <;> split <;> simp

/-- Once `len` is negative, every `accept` fails and no connection is ever taken. -/
theorem einval_forever {peers : UInt32 → Prop} (hneg : Einval len)
    (h : serverLoop.Reach (KernelTurn peers)
      (ServerListener.start wakeupRead wakeupWrite listenFd db len) s log) :
    s.len = len ∧ Unconnected s ∧ ∀ c ret, .addConnector c ret ∉ log := by
  apply h.invariant
    (P := fun s log => s.len = len ∧ Unconnected s ∧ ∀ c ret, .addConnector c ret ∉ log)
  · exact ⟨rfl, ⟨rfl, rfl⟩, by simp⟩
  · rintro s log t ⟨hlen, hempty, hnone⟩ ⟨-, hanswer⟩
    have hfailed : t.accept = (-1, s.len) := by
      rcases hanswer with hfailed | ⟨hnot, -⟩
      · exact hfailed
      · exact absurd (hlen ▸ hneg) hnot
    obtain ⟨⟨returned, hstate⟩, hevents⟩ := hempty.turn hfailed
    rw [show serverLoop.step = ServerListener.turn from rfl, hstate]
    refine ⟨hlen, ⟨hempty.none_connected, hempty.none_quitting⟩, fun c ret hmem => ?_⟩
    rcases List.mem_append.mp hmem with hold | hnew
    · exact hnone c ret hold
    · exact hevents c ret hnew

end VRAdmin
