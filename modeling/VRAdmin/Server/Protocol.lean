import VRAdmin.Server.ServerListener

/-! # The listener as a table of connections

An abstract server that only knows which connections are open and which of them
have announced their end. Its steps are the smallest pieces of a turn that keep
this table meaningful: accept a connection, read without or with a reply, see
the end of a connection, drop it. Every turn of the select loop is a sequence of
these steps, so what they preserve holds along every run of the program.
-/

namespace VRAdmin

open Foundation ClientConnector

/-- Open connections, oldest first, and those of them that have quit. -/
structure ConnTable where
  ids : List Int
  quitting : List Int

/-- The steps with their events; `reserved` are the listener's own descriptors. -/
inductive ConnStep (db : XmlDatabase) (reserved : List Int) :
    ConnTable → List Event → ConnTable → Prop
  | idle {k : ConnTable} {e : Event} : e.named = none → (∀ c ret, e ≠ .addConnector c ret) →
      ConnStep db reserved k [e] k
  | accepted {ids : List Int} {fd c : Int} {len : UInt32} : 0 < c → c ∉ ids → c ∉ reserved →
      ConnStep db reserved ⟨ids, []⟩ [.accept fd len c, .addConnector c 0] ⟨ids ++ [c], []⟩
  | failed {k : ConnTable} {c : Int} : c ∈ k.ids → c ∉ k.quitting →
      ConnStep db reserved k [.read c .failed] k
  | replied {k : ConnTable} {c : Int} {chunk : Chunk} {behind : Bytes} {taken : Option Nat} :
      c ∈ k.ids → c ∉ k.quitting → isQuit chunk = false →
      ConnStep db reserved k
        [.read c (.chunk chunk), .write c (answer db (rbuff chunk ++ behind)) taken] k
  | quit {k : ConnTable} {c : Int} {chunk : Chunk} : c ∈ k.ids → c ∉ k.quitting →
      isQuit chunk = true →
      ConnStep db reserved k [.read c (.chunk chunk)] ⟨k.ids, k.quitting ++ [c]⟩
  | dropped {ids quitting : List Int} {c : Int} : c ∈ ids →
      ConnStep db reserved ⟨ids, c :: quitting⟩ [.delConnector c, .close c]
        ⟨ids.erase c, quitting⟩

/-- The logs of the abstract server with the table they lead to. -/
inductive ConnRun (db : XmlDatabase) (reserved : List Int) : List Event → ConnTable → Prop
  | start : ConnRun db reserved [] ⟨[], []⟩
  | next {log evs : List Event} {k k' : ConnTable} : ConnRun db reserved log k →
      ConnStep db reserved k evs k' → ConnRun db reserved (log ++ evs) k'

/-! ## What the steps preserve -/

structure ConnTable.Sound (reserved : List Int) (k : ConnTable) : Prop where
  ids_nodup : k.ids.Nodup
  quitting_nodup : k.quitting.Nodup
  quitting_open : ∀ c ∈ k.quitting, c ∈ k.ids
  ids_pos : ∀ c ∈ k.ids, 0 < c
  ids_free : ∀ c ∈ k.ids, c ∉ reserved

variable {db : XmlDatabase} {reserved : List Int}

theorem ConnStep.sound {k k' : ConnTable} {evs : List Event}
    (h : ConnStep db reserved k evs k') (hk : k.Sound reserved) : k'.Sound reserved := by
  obtain ⟨hids, hquit, hopen, hpos, hfree⟩ := hk
  cases h with
  | idle => exact ⟨hids, hquit, hopen, hpos, hfree⟩
  | failed => exact ⟨hids, hquit, hopen, hpos, hfree⟩
  | replied => exact ⟨hids, hquit, hopen, hpos, hfree⟩
  | @accepted ids fd c len hc hnew hres =>
      refine ⟨?_, hquit, by simp, ?_, ?_⟩
      · rw [List.nodup_append]
        refine ⟨hids, by simp, ?_⟩
        rintro a ha b hb rfl
        exact hnew (by simpa [List.mem_singleton.mp hb] using ha)
      · intro a ha
        rcases List.mem_append.mp ha with ha | ha
        · exact hpos a ha
        · rwa [List.mem_singleton.mp ha]
      · intro a ha
        rcases List.mem_append.mp ha with ha | ha
        · exact hfree a ha
        · rwa [List.mem_singleton.mp ha]
  | quit hc hnew hq =>
      refine ⟨hids, ?_, ?_, hpos, hfree⟩
      · rw [List.nodup_append]
        refine ⟨hquit, by simp, ?_⟩
        rintro a ha b hb rfl
        exact hnew (by simpa [List.mem_singleton.mp hb] using ha)
      · intro a ha
        rcases List.mem_append.mp ha with ha | ha
        · exact hopen a ha
        · rwa [List.mem_singleton.mp ha]
  | @dropped ids quitting c hc =>
      have hne : ∀ a ∈ quitting, a ≠ c := by
        rintro a ha rfl
        exact (List.nodup_cons.mp hquit).1 ha
      refine ⟨hids.erase c, (List.nodup_cons.mp hquit).2, ?_, ?_, ?_⟩
      · intro a ha
        exact (List.mem_erase_of_ne (hne a ha)).mpr (hopen a (List.mem_cons_of_mem c ha))
      · exact fun a ha => hpos a (List.mem_of_mem_erase ha)
      · exact fun a ha => hfree a (List.mem_of_mem_erase ha)

theorem ConnRun.sound {log : List Event} {k : ConnTable} (h : ConnRun db reserved log k) :
    k.Sound reserved := by
  induction h with
  | start => exact ⟨by simp, by simp, by simp, by simp, by simp⟩
  | next _ hs ih => exact hs.sound ih

/-- The table lists exactly the descriptors that are open in the log. -/
theorem ConnRun.openConns_eq {log : List Event} {k : ConnTable} (h : ConnRun db reserved log k) :
    openConns log = k.ids := by
  induction h with
  | start => rfl
  | @next log evs k k' hrun hs ih =>
      unfold openConns at ih ⊢
      rw [connections_append]
      cases hs with
      | idle hnone => simpa [history_idle hnone] using ih
      | accepted hc => simpa [history_accept hc] using ih
      | failed => simpa using ih
      | replied => simpa using ih
      | quit => simpa using ih
      | dropped =>
          rw [hrun.sound.ids_nodup.erase_eq_filter]
          simpa [Bool.beq_eq_decide_eq, bne] using congrArg _ ih

/-- Every open, use and close of the log is on a descriptor in the right state. -/
theorem ConnRun.tidy {log : List Event} {k : ConnTable} (h : ConnRun db reserved log k) :
    Tidy (history log) := by
  induction h with
  | start => exact tidy_nil
  | @next log evs k k' hrun hs ih =>
      have hopen : openNames (lives (history log)) = k.ids := hrun.openConns_eq
      rw [history_append]
      cases hs with
      | idle hnone => simpa [history_idle hnone] using ih
      | accepted hc hnew =>
          rw [history_accept hc]
          exact ih.snoc (show _ ∉ openNames _ by rwa [hopen])
      | failed hc => exact ih.snoc (show _ ∈ openNames _ by rwa [hopen])
      | quit hc => exact ih.snoc (show _ ∈ openNames _ by rwa [hopen])
      | @replied _ c chunk behind taken hc =>
          have hread : Tidy (history log ++ [.acts c (.read (.chunk chunk))]) :=
            ih.snoc (show c ∈ openNames _ by rwa [hopen])
          have hwrite := hread.snoc (e := .acts c (.wrote (answer db (rbuff chunk ++ behind)) taken))
            (show c ∈ openNames _ by rwa [lives_snoc, openNames_acts, hopen])
          simpa using hwrite
      | dropped hc => exact ih.snoc (show _ ∈ openNames _ by rwa [hopen])

/-! ## The select loop follows the protocol -/

/-- The listener between two steps: its lists are the table its log leads to. -/
structure Tracks (db : XmlDatabase) (reserved : List Int) (s : ServerListener)
    (log : List Event) : Prop where
  run : ConnRun db reserved log ⟨s.mConnectors, s.quitConns⟩
  db_eq : s.mXmlData = db
  reserved_eq : [s.mWakeupRead, s.mWakeupWrite, s.mListenFd] = reserved
  quit_flag : s.rQuit = true ↔ s.quitConns ≠ []

namespace Tracks

variable {s : ServerListener} {log : List Event}

theorem idle (h : Tracks db reserved s log) {e : Event} (hnone : e.named = none)
    (hadd : ∀ c ret, e ≠ .addConnector c ret) : Tracks db reserved s (log ++ [e]) :=
  ⟨h.run.next (.idle hnone hadd), h.db_eq, h.reserved_eq, h.quit_flag⟩

theorem acceptClient (h : Tracks db reserved s log) (hquit : s.quitConns = [])
    {answer : Int × UInt32}
    (hfresh : answer.1 = -1 ∨ 0 < answer.1 ∧ answer.1 ∉ openConns log ∧ answer.1 ∉ reserved) :
    Tracks db reserved (s.acceptClient answer).1 (log ++ (s.acceptClient answer).2) ∧
      (s.acceptClient answer).1.quitConns = [] := by
  unfold ServerListener.acceptClient
  rcases hfresh with hnone | ⟨hpos, hnew, hres⟩
  · have hle : ¬ answer.1 > 0 := by omega
    simp only [hle, if_false]
    refine ⟨⟨h.run.next (.idle (by simp [Event.named, hle]) (by simp)), h.db_eq, h.reserved_eq,
      h.quit_flag⟩, hquit⟩
  · have hids : answer.1 ∉ s.mConnectors := by rwa [h.run.openConns_eq] at hnew
    have hrun := h.run
    rw [hquit] at hrun
    simp only [show answer.1 > 0 from hpos, if_true, ServerListener.addConnector, hids, if_false]
    refine ⟨⟨?_, h.db_eq, h.reserved_eq, h.quit_flag⟩, hquit⟩
    rw [hquit]
    exact hrun.next (.accepted hpos hids hres)

theorem postSelect (h : Tracks db reserved s log) {conn : Int} (hconn : conn ∈ s.mConnectors)
    (hnew : conn ∉ s.quitConns) (rset : List Int) (io : ConnIo) :
    Tracks db reserved
      (if (postSelect conn s.mXmlData rset io).1 = resultQuit then
        { s with quitConns := s.quitConns ++ [conn], rQuit := true } else s)
      (log ++ (ClientConnector.postSelect conn s.mXmlData rset io).2) := by
  rcases postSelect_cases conn s.mXmlData rset io with
    ⟨_, heq⟩ | ⟨_, heq | ⟨c, hq, heq⟩ | ⟨c, ret, hq, hret, heq⟩⟩
  · rw [heq]
    simpa [resultErr, resultQuit] using h
  · rw [heq]
    exact ⟨h.run.next (.failed hconn hnew), h.db_eq, h.reserved_eq, h.quit_flag⟩
  · rw [heq]
    exact ⟨h.run.next (.quit hconn hnew hq), h.db_eq, h.reserved_eq, by simp⟩
  · rw [heq]
    simp only [hret, if_false, h.db_eq]
    exact ⟨h.run.next (.replied hconn hnew hq), h.db_eq, h.reserved_eq, h.quit_flag⟩

/-- The service loop: the induction is on the connectors still to be served, which
are open and have not quit. -/
theorem serve (rset : List Int) (io : Int → ConnIo) (conns : List Int)
    (h : Tracks db reserved s log) (hnodup : conns.Nodup) (hopen : ∀ c ∈ conns, c ∈ s.mConnectors)
    (hnew : ∀ c ∈ conns, c ∉ s.quitConns) :
    Tracks db reserved (ServerListener.serve rset io conns s).1
      (log ++ (ServerListener.serve rset io conns s).2) := by
  induction conns generalizing s log with
  | nil => simpa [ServerListener.serve] using h
  | cons conn rest ih =>
      rw [List.nodup_cons] at hnodup
      have hstep := h.postSelect (hopen conn (by simp)) (hnew conn (by simp)) rset (io conn)
      rw [ServerListener.serve]
      dsimp only
      rw [← List.append_assoc]
      apply ih hstep hnodup.2
      · intro c hc
        split <;> exact hopen c (List.mem_cons_of_mem conn hc)
      · intro c hc
        have hold := hnew c (List.mem_cons_of_mem conn hc)
        split
        · rw [List.mem_append, List.mem_singleton]
          have hne : c ≠ conn := fun heq => hnodup.1 (heq ▸ hc)
          simp [hold, hne]
        · exact hold

theorem dropAll (quitting : List Int) (hrun : ConnRun db reserved log ⟨s.mConnectors, quitting⟩) :
    ConnRun db reserved (log ++ (ServerListener.dropAll quitting s).2)
      ⟨(ServerListener.dropAll quitting s).1.mConnectors, []⟩ := by
  induction quitting generalizing s log with
  | nil => simpa [ServerListener.dropAll] using hrun
  | cons conn rest ih =>
      have hopen := hrun.sound.quitting_open conn (by simp)
      have hstep := hrun.next (.dropped hopen)
      have hrec := ih (s := s.delConnector conn) hstep
      rw [ServerListener.dropAll]
      simpa using hrec

theorem dropAll_frame (quitting : List Int) (s : ServerListener) :
    (ServerListener.dropAll quitting s).1 =
      { s with mConnectors := (ServerListener.dropAll quitting s).1.mConnectors } := by
  induction quitting generalizing s with
  | nil => rfl
  | cons conn rest ih =>
      rw [ServerListener.dropAll]
      dsimp only
      rw [ih]
      rfl

theorem serve_frame (rset : List Int) (io : Int → ConnIo) (conns : List Int)
    (s : ServerListener) :
    (ServerListener.serve rset io conns s).1 =
      { s with
        rQuit := (ServerListener.serve rset io conns s).1.rQuit
        quitConns := (ServerListener.serve rset io conns s).1.quitConns } := by
  induction conns generalizing s with
  | nil => rfl
  | cons conn rest ih =>
      rw [ServerListener.serve]
      dsimp only
      rw [ih]
      split <;> rfl

theorem reap_frame (s : ServerListener) :
    s.reap.1 =
      { s with
        mConnectors := s.reap.1.mConnectors
        rQuit := s.reap.1.rQuit
        quitConns := s.reap.1.quitConns } := by
  unfold ServerListener.reap
  split
  · dsimp only
    rw [dropAll_frame]
  · rfl

theorem reap (h : Tracks db reserved s log) :
    Tracks db reserved s.reap.1 (log ++ s.reap.2) ∧ s.reap.1.quitConns = [] := by
  unfold ServerListener.reap
  by_cases hq : s.rQuit = true
  · rw [if_pos hq]
    have hframe := dropAll_frame s.quitConns s
    refine ⟨⟨dropAll s.quitConns h.run, ?_, ?_, by simp⟩, rfl⟩
    · dsimp only
      rw [hframe]
      exact h.db_eq
    · dsimp only
      rw [hframe]
      exact h.reserved_eq
  · rw [if_neg hq]
    have hquit : s.quitConns = [] := Classical.byContradiction fun hne => hq (h.quit_flag.mpr hne)
    exact ⟨by simpa using h, hquit⟩

theorem serveTurn (h : Tracks db reserved s log) (hquit : s.quitConns = []) {t : Turn}
    (hfresh : t.accept.1 = -1 ∨
      0 < t.accept.1 ∧ t.accept.1 ∉ openConns log ∧ t.accept.1 ∉ reserved)
    (nfds : Int) (rset : List Int) :
    Tracks db reserved (s.serveTurn t nfds rset).1 (log ++ (s.serveTurn t nfds rset).2) ∧
      (s.serveTurn t nfds rset).1.quitConns = [] := by
  have haccept : ∃ s' evs,
      (if s.mListenFd ∈ rset then s.acceptClient t.accept else (s, [])) = (s', evs) ∧
        Tracks db reserved s' (log ++ evs) ∧ s'.quitConns = [] := by
    by_cases hl : s.mListenFd ∈ rset
    · rw [if_pos hl]
      exact ⟨_, _, rfl, h.acceptClient hquit hfresh⟩
    · rw [if_neg hl]
      exact ⟨s, [], rfl, by simpa using h, hquit⟩
  obtain ⟨s', evs, heq, htracks, hquit'⟩ := haccept
  unfold ServerListener.serveTurn
  rw [heq]
  dsimp only
  split
  · exact ⟨htracks, hquit'⟩
  · have hserve := htracks.serve rset t.io s'.mConnectors htracks.run.sound.ids_nodup
      (fun c hc => hc) (fun c _ => by simp [hquit'])
    have hreap := hserve.reap
    simpa only [List.append_assoc] using hreap

theorem turn (h : Tracks db reserved s log) (hquit : s.quitConns = []) {t : Turn}
    (hfresh : FreshAccept s log t) :
    Tracks db reserved (s.turn t).1 (log ++ (s.turn t).2) ∧ (s.turn t).1.quitConns = [] := by
  have hfresh' : t.accept.1 = -1 ∨
      0 < t.accept.1 ∧ t.accept.1 ∉ openConns log ∧ t.accept.1 ∉ reserved := by
    simpa only [FreshAccept, h.reserved_eq] using hfresh
  unfold ServerListener.turn
  by_cases hret : s.returned = true
  · rw [if_pos hret]
    exact ⟨by simpa using h, hquit⟩
  rw [if_neg hret]
  have hselect : Tracks db reserved s (log ++ [.select s.requestSet.2 s.requestSet.1]) :=
    h.idle rfl (by simp)
  cases t.select with
  | failed errno =>
      dsimp only
      split
      · exact ⟨hselect, hquit⟩
      · exact ⟨⟨hselect.run, h.db_eq, h.reserved_eq, h.quit_flag⟩, hquit⟩
  | ready nfds rset =>
      dsimp only
      have hwoken : Tracks db reserved s
          (log ++ (.select s.requestSet.2 s.requestSet.1 ::
            if s.mWakeupRead ∈ rset then [Event.readWakeup s.mWakeupRead] else [])) := by
        by_cases hw : s.mWakeupRead ∈ rset
        · simpa [hw] using hselect.idle (e := .readWakeup s.mWakeupRead) rfl (by simp)
        · simpa [hw] using hselect
      split
      · exact ⟨hwoken, hquit⟩
      · have hopen : openConns (log ++ (.select s.requestSet.2 s.requestSet.1 ::
            if s.mWakeupRead ∈ rset then [Event.readWakeup s.mWakeupRead] else [])) =
            openConns log := by
          rw [hwoken.run.openConns_eq, h.run.openConns_eq]
        have hserve := hwoken.serveTurn hquit (by rwa [hopen]) nfds rset
        simpa only [List.append_assoc] using hserve

end Tracks

/-- Every run of the select loop is a run of the abstract server. -/
theorem reach_tracks {wakeupRead wakeupWrite listenFd : Int} {len : UInt32}
    {s : ServerListener} {log : List Event}
    (h : serverLoop.Reach FreshAccept
      (ServerListener.start wakeupRead wakeupWrite listenFd db len) s log) :
    Tracks db [wakeupRead, wakeupWrite, listenFd] s log ∧ s.quitConns = [] :=
  h.invariant (P := fun s log => Tracks db [wakeupRead, wakeupWrite, listenFd] s log ∧
      s.quitConns = [])
    ⟨⟨.start, rfl, rfl, by simp [ServerListener.start]⟩, rfl⟩
    fun _ _ _ hs ha => hs.1.turn hs.2 ha

end VRAdmin
