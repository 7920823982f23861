import VRAdmin.Server.Protocol

/-! # What one client sees

The bytes written on a connection are the answers to the chunks it read itself,
in order, whatever the other clients do. The one way in which the code breaks
this is a request that fills `rbuff` to the last byte: its feature version is
then scanned past the buffer and the answer depends on the stack behind it.
-/

namespace VRAdmin

open Foundation ClientConnector

def ConnAct.chunk? : ConnAct → Option Chunk
  | .read (.chunk c) => some c
  | _ => none

/-- The buffer handed to `write`. -/
def ConnAct.offered? : ConnAct → Option Bytes
  | .wrote buf _ => some buf
  | _ => none

/-- The bytes the kernel took in a `write`. -/
def ConnAct.written? : ConnAct → Option Bytes
  | .wrote buf taken => some (buf.take (taken.getD 0))
  | _ => none

/-- A connection from `accept` to `close`. -/
abbrev Conversation := Life Int ConnAct

namespace Conversation

def chunks (l : Conversation) : List Chunk := l.acts.filterMap ConnAct.chunk?
def offered (l : Conversation) : List Bytes := l.acts.filterMap ConnAct.offered?
def written (l : Conversation) : List Bytes := l.acts.filterMap ConnAct.written?

/-- Every `write` took its whole buffer. -/
def WritesWhole (l : Conversation) : Prop :=
  ∀ buf taken, .wrote buf taken ∈ l.acts → taken = some buf.length

/-- The end of the stream or `quit` has been read. -/
def finished (l : Conversation) : Bool := l.chunks.any isQuit

theorem written_of_whole {l : Conversation} (h : l.WritesWhole) : l.written = l.offered := by
  apply List.filterMap_congr
  intro act hact
  cases act with
  | read => rfl
  | wrote buf taken => simp [ConnAct.written?, ConnAct.offered?, h buf taken hact]

/-- The conversation after one more action. -/
def act (l : Conversation) (a : ConnAct) : Conversation := { l with acts := l.acts ++ [a] }

@[simp] theorem act_name (l : Conversation) (a : ConnAct) : (l.act a).name = l.name := rfl
@[simp] theorem act_closed (l : Conversation) (a : ConnAct) : (l.act a).closed = l.closed := rfl

@[simp] theorem act_chunks (l : Conversation) (a : ConnAct) :
    (l.act a).chunks = l.chunks ++ a.chunk?.toList := by
  cases a with
  | read r => cases r <;> simp [chunks, act, ConnAct.chunk?]
  | wrote => simp [chunks, act, ConnAct.chunk?]

@[simp] theorem act_offered (l : Conversation) (a : ConnAct) :
    (l.act a).offered = l.offered ++ a.offered?.toList := by
  cases a <;> simp [offered, act, ConnAct.offered?]

theorem record_own {l : Conversation} {c : Int} (hl : l.closed = false ∧ l.name = c)
    (a : ConnAct) : l.record (.acts c a) = l.act a := by
  simp [Life.record, hl, act]

theorem record_other {l : Conversation} {c : Int} (hl : ¬ (l.closed = false ∧ l.name = c))
    (a : ConnAct) : l.record (.acts c a) = l := by
  simp only [Life.record, hl, if_false]

end Conversation

/-- A client served on its own: one reply for each chunk up to the first that
ends the connection. -/
def replies (f : Chunk → Bytes) : List Chunk → List Bytes
  | [] => []
  | c :: rest => if isQuit c then [] else f c :: replies f rest

theorem replies_snoc (f : Chunk → Bytes) {cs : List Chunk} (hcs : cs.any isQuit = false)
    (c : Chunk) : replies f (cs ++ [c]) = replies f cs ++ if isQuit c then [] else [f c] := by
  induction cs with
  | nil => simp [replies]
  | cons first rest ih =>
      rw [List.any_cons, Bool.or_eq_false_iff] at hcs
      rw [List.cons_append, replies, replies, ih hcs.2]
      simp [hcs.1]

/-! ## The invariant of each conversation -/

/-- What holds of every conversation between two steps of the abstract server. -/
structure Conversed (db : XmlDatabase) (quitting : List Int) (l : Conversation) : Prop where
  closed_finished : l.closed = true → l.finished = true
  open_finished : l.closed = false → (l.finished = true ↔ l.name ∈ quitting)
  answered : (∀ c ∈ l.chunks, ¬ Overruns db c) → l.offered = replies (reply db) l.chunks

namespace Conversed

variable {db : XmlDatabase} {quitting : List Int} {l : Conversation} {c : Int}

theorem fresh (c : Int) : Conversed db [] ⟨c, [], false⟩ :=
  ⟨by simp, by simp [Conversation.finished, Conversation.chunks], fun _ => rfl⟩

theorem not_finished (h : Conversed db quitting l) (hopen : l.closed = false)
    (hnew : l.name ∉ quitting) : l.finished = false := by
  cases hf : l.finished with
  | false => rfl
  | true => exact (hnew ((h.open_finished hopen).mp hf)).elim

theorem failed (h : Conversed db quitting l) :
    Conversed db quitting (l.record (.acts c (.read .failed))) := by
  by_cases hl : l.closed = false ∧ l.name = c
  · rw [Conversation.record_own hl]
    obtain ⟨hc, hf, ha⟩ := h
    exact ⟨by simpa [Conversation.finished, ConnAct.chunk?] using hc,
      by simpa [Conversation.finished, ConnAct.chunk?] using hf,
      by simpa [ConnAct.chunk?, ConnAct.offered?] using ha⟩
  · rwa [Conversation.record_other hl]

theorem replied (h : Conversed db quitting l) (hnew : c ∉ quitting) {chunk : Chunk}
    (hq : isQuit chunk = false) (behind : Bytes) (taken : Option Nat) :
    Conversed db quitting
      ((l.record (.acts c (.read (.chunk chunk)))).record
        (.acts c (.wrote (answer db (rbuff chunk ++ behind)) taken))) := by
  by_cases hl : l.closed = false ∧ l.name = c
  · have hnot : l.finished = false := h.not_finished hl.1 (hl.2 ▸ hnew)
    rw [Conversation.record_own hl, Conversation.record_own (by simpa using hl)]
    refine ⟨by simp [hl.1], ?_, ?_⟩
    · intro _
      have hiff := h.open_finished hl.1
      simpa [Conversation.finished, ConnAct.chunk?, hq] using hiff
    · intro hsafe
      simp only [Conversation.act_chunks, ConnAct.chunk?, Option.toList, List.append_nil] at hsafe
      have hold := h.answered fun d hd => hsafe d (List.mem_append_left _ hd)
      have hreply := answer_rbuff_append (hsafe chunk (by simp)) behind
      simp only [Conversation.act_chunks, Conversation.act_offered, ConnAct.chunk?,
        ConnAct.offered?, Option.toList, List.append_nil]
      rw [replies_snoc _ hnot, hold, hreply]
      simp [hq]
  · rw [Conversation.record_other hl, Conversation.record_other hl]
    exact h

theorem quit (h : Conversed db quitting l) (hnew : c ∉ quitting) {chunk : Chunk}
    (hq : isQuit chunk = true) :
    Conversed db (quitting ++ [c]) (l.record (.acts c (.read (.chunk chunk)))) := by
  by_cases hl : l.closed = false ∧ l.name = c
  · have hnot : l.finished = false := h.not_finished hl.1 (hl.2 ▸ hnew)
    rw [Conversation.record_own hl]
    refine ⟨by simp [hl.1], by simp [Conversation.finished, ConnAct.chunk?, hq, hl.2], ?_⟩
    intro hsafe
    simp only [Conversation.act_chunks, ConnAct.chunk?, Option.toList] at hsafe
    have hold := h.answered fun d hd => hsafe d (List.mem_append_left _ hd)
    simp only [Conversation.act_chunks, Conversation.act_offered, ConnAct.chunk?,
      ConnAct.offered?, Option.toList]
    rw [replies_snoc _ hnot, hold]
    simp [hq]
  · rw [Conversation.record_other hl]
    refine ⟨h.closed_finished, ?_, h.answered⟩
    intro hopen
    have hne : l.name ≠ c := fun hn => hl ⟨hopen, hn⟩
    rw [h.open_finished hopen]
    simp [hne]

theorem dropped (h : Conversed db (c :: quitting) l) :
    Conversed db quitting (l.record (.closes c)) := by
  by_cases hl : l.closed = false ∧ l.name = c
  · have hfin : l.finished = true := (h.open_finished hl.1).mpr (by simp [hl.2])
    simp only [Life.record, hl, and_self, if_true]
    exact ⟨fun _ => hfin, by simp, h.answered⟩
  · simp only [Life.record, hl, if_false]
    refine ⟨h.closed_finished, ?_, h.answered⟩
    intro hopen
    have hne : l.name ≠ c := fun hn => hl ⟨hopen, hn⟩
    rw [h.open_finished hopen]
    simp [hne]

end Conversed

theorem forall_extend_acts {P Q : Conversation → Prop} {ls : List Conversation} {c : Int}
    {a : ConnAct} (h : ∀ l ∈ ls, P l) (step : ∀ l, P l → Q (l.record (.acts c a))) :
    ∀ l ∈ extend ls (.acts c a), Q l := by
  intro l hl
  simp only [extend, born, List.append_nil, List.mem_map] at hl
  obtain ⟨old, hold, rfl⟩ := hl
  exact step old (h old hold)

theorem ConnRun.conversed {db : XmlDatabase} {reserved : List Int} {log : List Event}
    {k : ConnTable} (h : ConnRun db reserved log k) :
    ∀ l ∈ connections log, Conversed db k.quitting l := by
  induction h with
  | start => simp [connections, lives]
  | @next log evs k k' hrun hs ih =>
      rw [connections_append]
      cases hs with
      | idle hnone => simpa [history_idle hnone] using ih
      | accepted hc =>
          rw [history_accept hc]
          intro l hl
          simp only [history_addConnector, history_nil, List.foldl_cons, List.foldl_nil, extend,
            born, List.mem_append, List.mem_map, List.mem_singleton] at hl
          rcases hl with ⟨old, hold, rfl⟩ | rfl
          · exact ih old hold
          · exact Conversed.fresh _
      | failed => exact forall_extend_acts ih fun l hl => hl.failed
      | @replied _ c chunk behind taken _ hnew hq =>
          intro l hl
          simp only [history_read, history_write, history_nil, List.foldl_cons, List.foldl_nil,
            extend, born, List.append_nil, List.map_map, List.mem_map] at hl
          obtain ⟨old, hold, rfl⟩ := hl
          exact (ih old hold).replied hnew hq behind taken
      | quit _ hnew hq => exact forall_extend_acts ih fun l hl => hl.quit hnew hq
      | dropped =>
          intro l hl
          simp only [history_delConnector, history_close, history_nil, List.foldl_cons,
            List.foldl_nil, extend, born, List.append_nil, List.mem_map] at hl
          obtain ⟨old, hold, rfl⟩ := hl
          exact (ih old hold).dropped

/-! ## The trace of each client -/

/-- In every run the database is as loaded, the connectors are the open
connections, and a connection is closed by the end of the turn in which it read
its end. If none of its own chunks overruns `rbuff`, it was offered exactly the
replies to its own chunks, has received them when every write was taken whole,
and gets the same in any other run that delivers the same chunks to it. -/
theorem conversation_trace {db : XmlDatabase} {wakeupRead wakeupWrite listenFd : Int}
    {len : UInt32} {s : ServerListener} {log : List Event}
    (h : serverLoop.Reach FreshAccept
      (ServerListener.start wakeupRead wakeupWrite listenFd db len) s log) :
    s.mXmlData = db ∧ s.mConnectors = openConns log ∧
    ∀ l ∈ connections log,
      (l.closed = true ↔ Conversation.finished l = true) ∧
      ((∀ c ∈ Conversation.chunks l, ¬ Overruns db c) →
        Conversation.offered l = replies (reply db) (Conversation.chunks l) ∧
        (Conversation.WritesWhole l →
          Conversation.written l = replies (reply db) (Conversation.chunks l)) ∧
        ∀ wakeupRead' wakeupWrite' listenFd' len' s' log',
          serverLoop.Reach FreshAccept
            (ServerListener.start wakeupRead' wakeupWrite' listenFd' db len') s' log' →
          ∀ l' ∈ connections log', Conversation.chunks l' = Conversation.chunks l →
            Conversation.offered l' = Conversation.offered l) := by
  obtain ⟨htracks, hquit⟩ := reach_tracks h
  refine ⟨htracks.db_eq, htracks.run.openConns_eq.symm, ?_⟩
  intro l hl
  have hconv := htracks.run.conversed l hl
  rw [hquit] at hconv
  refine ⟨⟨hconv.closed_finished, ?_⟩, ?_⟩
  · intro hfin
    cases hc : l.closed with
    | true => rfl
    | false => simpa using (hconv.open_finished hc).mp hfin
  · intro hsafe
    have hoffered := hconv.answered hsafe
    refine ⟨hoffered, fun hwhole => (Conversation.written_of_whole hwhole).trans hoffered, ?_⟩
    intro wakeupRead' wakeupWrite' listenFd' len' s' log' h' l' hl' hsame
    have hconv' := (reach_tracks h').1.run.conversed l' hl'
    rw [hconv'.answered (by rwa [hsame]), hsame, hoffered]

/-- A store with one feature version of 53 bytes, all that fits behind the
keyword in `rbuff`. -/
def longVersionStore : XmlDatabase :=
  ⟨[⟨CString.lit "LVR", CString.lit "1", [(⟨List.replicate 53 97, by decide⟩, 7)]⟩]⟩

/-- A request for that version that leaves no room for a terminator. -/
def fullRequest : Chunk := ⟨ascii "lvr_feature:" ++ List.replicate 53 97, by decide⟩

/-- One client connects and sends the request while `behind` lies on the stack. -/
def fullRequestTurns (behind : Bytes) : List Turn :=
  let io : Int → ConnIo := fun _ => ⟨.chunk fullRequest, some 1, behind⟩
  [⟨.ready 1 [5], (7, 2), io⟩, ⟨.ready 1 [7], (-1, 2), io⟩]

/-- The reply to one request of a single client differs with the stack, so no
function of the database and the request gives it. -/
theorem conversation_trace_fails :
    ¬ ∃ f : XmlDatabase → Chunk → Bytes,
      ∀ (db : XmlDatabase) (wakeupRead wakeupWrite listenFd : Int) (len : UInt32)
        (s : ServerListener) (log : List Event),
        serverLoop.Reach FreshAccept
          (ServerListener.start wakeupRead wakeupWrite listenFd db len) s log →
        ∀ l ∈ connections log,
          Conversation.offered l = replies (f db) (Conversation.chunks l) := by
  intro ⟨f, hf⟩
  have hterminated : serverLoop.Admits FreshAccept (ServerListener.start 3 4 5 longVersionStore 0)
      [] (fullRequestTurns [0]) := by decide
  have hrunsOn : serverLoop.Admits FreshAccept (ServerListener.start 3 4 5 longVersionStore 0)
      [] (fullRequestTurns [98, 0]) := by decide
  have hzero := hf longVersionStore 3 4 5 0 _ _ (Machine.Reach.start.run hterminated)
    ⟨7, [.read (.chunk fullRequest), .wrote (ascii "7") (some 1)], false⟩ (by decide +kernel)
  have hletter := hf longVersionStore 3 4 5 0 _ _ (Machine.Reach.start.run hrunsOn)
    ⟨7, [.read (.chunk fullRequest), .wrote (ascii "0") (some 1)], false⟩ (by decide +kernel)
  have hsame : [ascii "7"] = [ascii "0"] := hzero.trans hletter.symm
  exact absurd hsame (by decide)

/-- Two clients that are served in turns; the descriptor of the first, which quits, is
given to a third one. -/
theorem conversation_trace_unknown :
    let svr : Chunk := ⟨ascii "svr_sdk_version", by decide⟩
    let lvr : Chunk := ⟨ascii "lvr_sdk_version", by decide⟩
    let quit : Chunk := ⟨ascii "quit", by decide⟩
    let io (first second : Chunk) : Int → ConnIo := fun conn =>
      ⟨.chunk (if conn = 7 then first else second), some 2, []⟩
    let turns : List Turn :=
      [⟨.ready 1 [5], (7, 2), io svr svr⟩, ⟨.ready 2 [5, 7], (8, 2), io svr svr⟩,
        ⟨.ready 2 [7, 8], (-1, 2), io quit lvr⟩, ⟨.ready 2 [5, 8], (7, 2), io svr svr⟩,
        ⟨.ready 2 [7, 8], (-1, 2), io lvr quit⟩]
    let r := serverLoop.run (ServerListener.start 3 4 5 longVersionStore 0) turns
    r.1.mXmlData = longVersionStore ∧ openConns r.2 = [7] ∧
      ∃ l ∈ connections r.2, ∃ l' ∈ connections r.2, ∃ l'' ∈ connections r.2,
        l.name = 7 ∧ l.closed = true ∧ Conversation.offered l = [ascii "-3"] ∧
        l'.name = 8 ∧ l'.closed = true ∧ Conversation.offered l' = [ascii "1", ascii "-3"] ∧
        l''.name = 7 ∧ l''.closed = false ∧ Conversation.offered l'' = [ascii "1"] := by
  intro svr lvr quit io turns r
  have hreach : serverLoop.Reach FreshAccept
      (ServerListener.start 3 4 5 longVersionStore 0) r.1 ([] ++ r.2) :=
    Machine.Reach.start.run (by decide)
  obtain ⟨hdb, hopen, hall⟩ := conversation_trace hreach
  let l : Conversation := ⟨7, [.read (.chunk svr), .wrote (ascii "-3") (some 2),
    .read (.chunk quit)], true⟩
  let l' : Conversation := ⟨8, [.read (.chunk lvr), .wrote (ascii "1") (some 2),
    .read (.chunk svr), .wrote (ascii "-3") (some 2), .read (.chunk quit)], true⟩
  let l'' : Conversation := ⟨7, [.read (.chunk lvr), .wrote (ascii "1") (some 2)], false⟩
  have hl : l ∈ connections r.2 := by decide +kernel
  have hl' : l' ∈ connections r.2 := by decide +kernel
  have hl'' : l'' ∈ connections r.2 := by decide +kernel
  have hoffered (m : Conversation) (hm : m ∈ connections r.2)
      (hsafe : ∀ c ∈ Conversation.chunks m, ¬ Overruns longVersionStore c) :
      Conversation.offered m = replies (reply longVersionStore) (Conversation.chunks m) :=
    ((hall m hm).2 hsafe).1
  refine ⟨hdb, hopen.symm.trans (by decide +kernel), l, hl, l', hl', l'', hl'', rfl,
    (hall l hl).1.mpr (by decide), ?_, rfl, (hall l' hl').1.mpr (by decide), ?_, rfl, rfl, ?_⟩
  · rw [hoffered l hl (by decide +kernel)]
    decide +kernel
  · rw [hoffered l' hl' (by decide +kernel)]
    decide +kernel
  · rw [hoffered l'' hl'' (by decide +kernel)]
    decide +kernel

end VRAdmin
