import VRAdmin.Server.Descriptors

/-! # One turn serves the ready descriptors

What `select` found ready is served in the order of the code: the wake-up pipe, the
listening socket, then the connectors. The two early `continue`s are taken when
`nfds` is 1, and the one ready descriptor has then been served. A connection that the
turn accepts joins the list in front of the service loop, but its descriptor was not
requested and so is not ready.
-/

namespace VRAdmin

open Foundation ClientConnector

/-- A read of the wake-up pipe, a call of `accept`, a read of a connection. -/
inductive Service
  | wakeup (fd : Int)
  | accept (fd : Int)
  | connection (fd : Int)
deriving DecidableEq

def Event.service : Event → Option Service
  | .readWakeup fd => some (.wakeup fd)
  | .accept fd _ _ => some (.accept fd)
  | .read fd _ => some (.connection fd)
  | _ => none

/-- The descriptors that a piece of a turn takes something from, in order. -/
def served (evs : List Event) : List Service := evs.filterMap Event.service

theorem served_append (first second : List Event) :
    served (first ++ second) = served first ++ served second :=
  List.filterMap_append

theorem served_eq_nil {evs : List Event} (h : ∀ e ∈ evs, e.service = none) : served evs = [] :=
  List.filterMap_eq_nil_iff.mpr h

/-- What a turn owes to the set that `select` left: one service to each member. -/
def ServerListener.due (s : ServerListener) (rset : List Int) : List Service :=
  (if s.mWakeupRead ∈ rset then [.wakeup s.mWakeupRead] else []) ++
    ((if s.mListenFd ∈ rset then [.accept s.mListenFd] else []) ++
      (s.mConnectors.filter (· ∈ rset)).map .connection)

/-- Descriptors that are open together differ. -/
structure ServerListener.Apart (s : ServerListener) : Prop where
  connectors_nodup : s.mConnectors.Nodup
  connectors_pos : ∀ c ∈ s.mConnectors, 0 < c
  connectors_other : ∀ c ∈ s.mConnectors, c ≠ s.mWakeupRead ∧ c ≠ s.mListenFd
  own_ne : s.mWakeupRead ≠ s.mListenFd

/-- What the kernel promises of a turn: `select` leaves and counts descriptors of the
set it was given, and a descriptor that `accept` returns is not one the listener
itself has open. -/
structure Turn.Honours (t : Turn) (s : ServerListener) (nfds : Int) (rset : List Int) : Prop where
  select : t.select = .ready nfds rset
  nodup : rset.Nodup
  requested : ∀ fd ∈ rset, fd ∈ s.requestSet.1
  counted : nfds = rset.length
  accepted : 0 < t.accept.1 → t.accept.1 ≠ s.mWakeupRead ∧ t.accept.1 ≠ s.mListenFd

/-- The states of a run are of this kind as soon as the first one is. -/
theorem reach_apart {db : XmlDatabase} {wakeupRead wakeupWrite listenFd : Int} {len : UInt32}
    (hne : wakeupRead ≠ listenFd) {s : ServerListener} {log : List Event}
    (h : serverLoop.Reach FreshAccept
      (ServerListener.start wakeupRead wakeupWrite listenFd db len) s log) : s.Apart := by
  obtain ⟨htracks, -⟩ := reach_tracks h
  have hids := htracks.ids_apart
  have hown := htracks.reserved_eq
  simp only [List.cons.injEq, and_true] at hown
  refine ⟨htracks.run.sound.ids_nodup, fun c hc => (hids c hc).1, fun c hc => ?_, ?_⟩
  · exact ⟨(hids c hc).2.2, (hids c hc).2.1⟩
  · rw [hown.1, hown.2.2]
    exact hne

/-! ## The largest requested descriptor -/

theorem foldl_preSelect_max (conns rset : List Int) (maxfd : Int) :
    (conns.foldl
      (fun (acc : List Int × Int) conn =>
        ((preSelect conn acc.1).1,
          if (preSelect conn acc.1).2 > acc.2 then (preSelect conn acc.1).2 else acc.2))
      (rset, maxfd)).2 = conns.foldl max maxfd := by
  induction conns generalizing rset maxfd with
  | nil => rfl
  | cons conn rest ih =>
      rw [List.foldl_cons, List.foldl_cons, ih, max_def_lt]
      rfl

theorem requestSet_snd (s : ServerListener) :
    (s.mWakeupRead :: s.mListenFd :: s.mConnectors).max? = some s.requestSet.2 := by
  have hown : max s.mWakeupRead s.mListenFd =
      if s.mWakeupRead > s.mListenFd then s.mWakeupRead else s.mListenFd := by
    rw [max_comm, max_def_lt]
  rw [List.max?_cons', List.foldl_cons, hown]
  exact congrArg some (foldl_preSelect_max s.mConnectors _ _).symm

/-! ## The pieces of a turn -/

theorem served_postSelect {conn : Int} (hpos : 0 < conn) (db : XmlDatabase) (rset : List Int)
    (io : ConnIo) :
    served (postSelect conn db rset io).2 =
      if conn ∈ rset then [.connection conn] else [] := by
  have hready : (conn < 0 ∨ conn ∉ rset) ↔ conn ∉ rset := or_iff_right (by omega)
  rcases postSelect_cases conn db rset io with
    ⟨hout, heq⟩ | ⟨hin, heq | ⟨c, -, heq⟩ | ⟨c, ret, -, -, heq⟩⟩
  · rw [heq, if_neg (hready.mp hout)]
    rfl
  · rw [heq, if_pos (not_not.mp (hready.not.mp hin))]
    rfl
  · rw [heq, if_pos (not_not.mp (hready.not.mp hin))]
    rfl
  · rw [heq, if_pos (not_not.mp (hready.not.mp hin))]
    rfl

/-- The service loop reads the ready connectors, each where it stands in the list. -/
theorem served_serve (rset : List Int) (io : Int → ConnIo) {conns : List Int}
    (hpos : ∀ c ∈ conns, 0 < c) (s : ServerListener) :
    served (ServerListener.serve rset io conns s).2 =
      (conns.filter (· ∈ rset)).map .connection := by
  induction conns generalizing s with
  | nil => rfl
  | cons conn rest ih =>
      have hhead := served_postSelect (hpos conn List.mem_cons_self) s.mXmlData rset (io conn)
      rw [ServerListener.serve]
      dsimp only
      rw [served_append, hhead, ih fun c hc => hpos c (List.mem_cons_of_mem conn hc)]
      by_cases hready : conn ∈ rset
      · rw [if_pos hready, List.filter_cons_of_pos (by simpa using hready)]
        rfl
      · rw [if_neg hready, List.filter_cons_of_neg (by simpa using hready)]
        rfl

theorem service_dropAll (quitting : List Int) (s : ServerListener) :
    ∀ e ∈ (ServerListener.dropAll quitting s).2, e.service = none := by
  induction quitting generalizing s with
  | nil => simp [ServerListener.dropAll]
  | cons conn rest ih =>
      rw [ServerListener.dropAll]
      intro e he
      rcases List.mem_cons.mp he with rfl | he
      · rfl
      · rcases List.mem_cons.mp he with rfl | he
        · rfl
        · exact ih _ e he

theorem served_reap (s : ServerListener) : served s.reap.2 = [] := by
  unfold ServerListener.reap
  split
  · exact served_eq_nil (service_dropAll s.quitConns s)
  · rfl

theorem acceptClient_listenFd (s : ServerListener) (answer : Int × UInt32) :
    (s.acceptClient answer).1.mListenFd = s.mListenFd := by
  unfold ServerListener.acceptClient ServerListener.addConnector
  dsimp only
  split
  · split <;> rfl
  · rfl

/-- `accept` is called once, and the list grows by a new descriptor or not at all. -/
theorem acceptClient_cases (s : ServerListener) (answer : Int × UInt32) :
    served (s.acceptClient answer).2 = [.accept s.mListenFd] ∧
      ((s.acceptClient answer).1.mConnectors = s.mConnectors ∨
        0 < answer.1 ∧ answer.1 ∉ s.mConnectors ∧
          (s.acceptClient answer).1.mConnectors = s.mConnectors ++ [answer.1]) := by
  unfold ServerListener.acceptClient
  by_cases hpos : answer.1 > 0
  · by_cases hold : answer.1 ∈ s.mConnectors
    · simp only [hpos, if_true, ServerListener.addConnector, hold]
      exact ⟨rfl, Or.inl trivial⟩
    · simp only [hpos, if_true, ServerListener.addConnector, hold, if_false]
      exact ⟨rfl, Or.inr ⟨trivial, not_false, trivial⟩⟩
  · simp only [hpos, if_false]
    exact ⟨rfl, Or.inl trivial⟩

/-! ## A whole turn -/

theorem ready_of_one {rset : List Int} {fd : Int} (hready : fd ∈ rset) {nfds : Int}
    (hcount : nfds = rset.length) (hone : nfds = 1) : rset = [fd] := by
  obtain ⟨only, rfl⟩ := List.length_eq_one_iff.mp (show rset.length = 1 by omega)
  rw [List.mem_singleton.mp hready]

theorem filter_ready_eq_nil {conns : List Int} {fd : Int} (h : ∀ c ∈ conns, c ≠ fd) :
    conns.filter (· ∈ [fd]) = [] := by
  rw [List.filter_eq_nil_iff]
  intro c hc
  simpa using h c hc

section
variable {s : ServerListener} {t : Turn} {nfds : Int} {rset : List Int}

theorem filter_ready_accepted (hapart : s.Apart) (h : t.Honours s nfds rset) :
    (s.acceptClient t.accept).1.mConnectors.filter (· ∈ rset) =
      s.mConnectors.filter (· ∈ rset) := by
  rcases (acceptClient_cases s t.accept).2 with hsame | ⟨hpos, hnew, hgrown⟩
  · rw [hsame]
  · have hout : t.accept.1 ∉ rset := by
      intro hin
      have hreq := h.requested _ hin
      rw [requestSet_fst s hapart.connectors_pos] at hreq
      obtain ⟨hwake, hlisten⟩ := h.accepted hpos
      rcases List.mem_cons.mp hreq with heq | hreq
      · exact hwake heq
      · rcases List.mem_cons.mp hreq with heq | hreq
        · exact hlisten heq
        · exact hnew hreq
    rw [hgrown, List.filter_append, List.filter_cons_of_neg (by simpa using hout), List.filter_nil,
      List.append_nil]

theorem acceptClient_pos (hapart : s.Apart) (answer : Int × UInt32) :
    ∀ c ∈ (s.acceptClient answer).1.mConnectors, 0 < c := by
  rcases (acceptClient_cases s answer).2 with hsame | ⟨hpos, -, hgrown⟩
  · rw [hsame]
    exact hapart.connectors_pos
  · rw [hgrown]
    intro c hc
    rcases List.mem_append.mp hc with hc | hc
    · exact hapart.connectors_pos c hc
    · rwa [List.mem_singleton.mp hc]

theorem served_serveTurn (hapart : s.Apart) (h : t.Honours s nfds rset) :
    served (s.serveTurn t nfds rset).2 =
      (if s.mListenFd ∈ rset then [.accept s.mListenFd] else []) ++
        (s.mConnectors.filter (· ∈ rset)).map .connection := by
  unfold ServerListener.serveTurn
  have haccept := (acceptClient_cases s t.accept).1
  by_cases hlisten : s.mListenFd ∈ rset
  · by_cases hone : nfds = 1
    · have hnone : s.mConnectors.filter (· ∈ rset) = [] := by
        rw [ready_of_one hlisten h.counted hone]
        exact filter_ready_eq_nil fun c hc => (hapart.connectors_other c hc).2
      simp only [hlisten, acceptClient_listenFd, hone, if_true, and_self, haccept, hnone]
      rfl
    · simp only [hlisten, hone, if_true, and_false, if_false, served_append, served_reap,
        haccept, List.append_nil]
      rw [served_serve rset t.io (acceptClient_pos hapart t.accept), filter_ready_accepted hapart h]
  · simp only [hlisten, if_false, false_and, List.nil_append, served_append, served_reap,
      List.append_nil]
    rw [served_serve rset t.io hapart.connectors_pos]

theorem served_woken (s : ServerListener) (rset : List Int) :
    served (if s.mWakeupRead ∈ rset then [.readWakeup s.mWakeupRead] else []) =
      if s.mWakeupRead ∈ rset then [.wakeup s.mWakeupRead] else [] := by
  split
  · rfl
  · rfl

theorem due_nodup (hapart : s.Apart) (rset : List Int) : (s.due rset).Nodup := by
  have hconns : ((s.mConnectors.filter (· ∈ rset)).map Service.connection).Nodup :=
    (hapart.connectors_nodup.filter _).map fun _ _ heq => Service.connection.inj heq
  have hone (p : Prop) [Decidable p] (d : Service) : (if p then [d] else []).Nodup := by
    split
    · exact List.nodup_singleton d
    · exact List.nodup_nil
  rw [ServerListener.due, List.nodup_append, List.nodup_append]
  refine ⟨hone _ _, ⟨hone _ _, hconns, ?_⟩, ?_⟩
  · rintro a ha b hb rfl
    obtain ⟨c, -, rfl⟩ := List.mem_map.mp hb
    split at ha <;> simp at ha
  · rintro a ha b hb rfl
    split at ha
    · rw [List.mem_singleton.mp ha] at hb
      split at hb <;> simp at hb
    · simp at ha

theorem served_turn (hapart : s.Apart) (h : t.Honours s nfds rset) :
    served ((if s.mWakeupRead ∈ rset then [.readWakeup s.mWakeupRead] else []) ++
      if s.mWakeupRead ∈ rset ∧ nfds = 1 then [] else (s.serveTurn t nfds rset).2) =
        s.due rset := by
  rw [served_append, served_woken, ServerListener.due]
  congr 1
  by_cases hwake : s.mWakeupRead ∈ rset ∧ nfds = 1
  · have hone := ready_of_one hwake.1 h.counted hwake.2
    rw [if_pos hwake, hone, if_neg (by simpa using hapart.own_ne.symm),
      filter_ready_eq_nil fun c hc => (hapart.connectors_other c hc).1]
    rfl
  · rw [if_neg hwake, served_serveTurn hapart h]

/-- A turn requests the listener's two descriptors and every connector with their
maximum, and then serves the ready ones, each once and no other. -/
theorem ready_served (hapart : s.Apart) (hrunning : s.returned = false)
    (h : t.Honours s nfds rset) :
    ∃ maxfd rest,
      (s.turn t).2 = .select maxfd (s.mWakeupRead :: s.mListenFd :: s.mConnectors) :: rest ∧
      (s.mWakeupRead :: s.mListenFd :: s.mConnectors).max? = some maxfd ∧
      served rest = s.due rset ∧ (served rest).Nodup := by
  have hturn : (s.turn t).2 = .select s.requestSet.2 s.requestSet.1 ::
      ((if s.mWakeupRead ∈ rset then [.readWakeup s.mWakeupRead] else []) ++
        if s.mWakeupRead ∈ rset ∧ nfds = 1 then [] else (s.serveTurn t nfds rset).2) := by
    simp only [ServerListener.turn, hrunning, Bool.false_eq_true, if_false, h.select]
    split
    · rw [List.append_nil]
    · rfl
  rw [requestSet_fst s hapart.connectors_pos] at hturn
  have hserved := served_turn hapart h
  refine ⟨_, _, hturn, requestSet_snd s, hserved, ?_⟩
  rw [hserved]
  exact due_nodup hapart rset

end

/-- Behind an accepted connection, a turn finds it and the listening socket ready and
accepts another one, which it does not read. -/
theorem ready_served_accepting :
    let io : Int → ConnIo := fun _ => ⟨.failed, none, []⟩
    let s := (serverLoop.run (ServerListener.start 3 4 5 XmlDatabase.empty 0)
      [⟨.ready 1 [5], (7, 2), io⟩]).1
    let t : Turn := ⟨.ready 2 [5, 7], (8, 2), io⟩
    ∃ maxfd rest, (s.turn t).2 = .select maxfd [3, 5, 7] :: rest ∧
      [3, 5, 7].max? = some maxfd ∧ served rest = [.accept 5, .connection 7] := by
  intro io s t
  have hreach : serverLoop.Reach FreshAccept (ServerListener.start 3 4 5 XmlDatabase.empty 0) s _ :=
    Machine.Reach.start.run (by decide)
  have hapart : s.Apart := reach_apart (by decide) hreach
  have hhonours : t.Honours s 2 [5, 7] := ⟨rfl, by decide, by decide, by decide, by decide⟩
  obtain ⟨maxfd, rest, hevs, hmax, hserved, -⟩ := ready_served hapart (by decide) hhonours
  exact ⟨maxfd, rest, hevs, hmax, hserved.trans (by decide)⟩

end VRAdmin
