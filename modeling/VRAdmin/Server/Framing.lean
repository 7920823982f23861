import VRAdmin.Server.Conversations
import VRAdmin.Server.Keywords

/-! # Commands and reads

The protocol has no delimiter: `postSelect` takes the bytes of one `read` for one
message and keeps nothing for the next. A client that sends several commands on its
stream gets a reply for each read, whatever the reads cut out of the stream.
-/

namespace VRAdmin

open Foundation ClientConnector

/-- A command that a client sends without waiting for the end of the connection. -/
structure Command where
  bytes : Bytes
  nonempty : bytes ≠ []
  fits : bytes.length ≤ buffSize
  noNul : (0 : UInt8) ∉ bytes
  notQuit : ¬ ascii "quit" <+: bytes

namespace Command

/-- The read that delivers exactly this command. -/
def chunk (cmd : Command) : Chunk := ⟨cmd.bytes, Nat.le_succ_of_le cmd.fits⟩

/-- Answered without a look behind the keyword. -/
def Parameterless (cmd : Command) : Prop :=
  strncasecmp cmd.bytes (ascii "support_sdks") 6 = 0 ∨
    strncasecmp cmd.bytes (ascii "lvr_sdk_version") 15 = 0 ∨
      strncasecmp cmd.bytes (ascii "svr_sdk_version") 15 = 0

end Command

/-- The bytes that the reads of a connection have taken off its stream. -/
def Conversation.stream (l : Conversation) : Bytes := (Conversation.chunks l).flatMap Chunk.bytes

/-- The bytes of commands sent one after the other. -/
def sent (cmds : List Command) : Bytes := cmds.flatMap Command.bytes

/-- The replies to commands that are each delivered by one read. -/
def commandReplies (db : XmlDatabase) (cmds : List Command) : List Bytes :=
  cmds.map fun cmd => reply db cmd.chunk

/-! ## One reply for each read -/

theorem replies_eq_map (f : Chunk → Bytes) (cs : List Chunk) :
    replies f cs = (cs.takeWhile fun c => !isQuit c).map f := by
  induction cs with
  | nil => rfl
  | cons c cs ih =>
      cases hq : isQuit c with
      | true => simp [replies, hq]
      | false => simp [replies, hq, ih]

theorem Command.rbuff_chunk (cmd : Command) :
    rbuff cmd.chunk = cmd.bytes ++ List.replicate (buffSize + 1 - cmd.bytes.length) 0 := rfl

theorem Command.nul_mem_rbuff (cmd : Command) : (0 : UInt8) ∈ rbuff cmd.chunk := by
  have hfits := cmd.fits
  rw [cmd.rbuff_chunk]
  refine List.mem_append_right _ (List.mem_replicate.mpr ⟨?_, rfl⟩)
  omega

theorem Command.not_overruns (cmd : Command) (db : XmlDatabase) : ¬ Overruns db cmd.chunk :=
  fun h => h.1 cmd.nul_mem_rbuff

theorem Command.cstr_rbuff (cmd : Command) : cstr (rbuff cmd.chunk) = cmd.bytes := by
  have hfits := cmd.fits
  obtain ⟨n, hn⟩ : ∃ n, buffSize + 1 - cmd.bytes.length = n + 1 :=
    ⟨buffSize - cmd.bytes.length, by omega⟩
  rw [cmd.rbuff_chunk, hn, List.replicate_succ]
  exact cstr_append_nul cmd.noNul _

theorem Command.isQuit_chunk (cmd : Command) : isQuit cmd.chunk = false := by
  have hlen : cmd.chunk.bytes.length ≠ 0 := fun h => cmd.nonempty (List.length_eq_zero_iff.mp h)
  have hcmp : strncmp (rbuff cmd.chunk) (ascii "quit") 4 ≠ 0 := by
    rw [ne_eq, strncmp_eq_zero_iff, cmd.cstr_rbuff]
    intro h
    exact cmd.notQuit (List.prefix_iff_eq_take.mpr h.symm)
  simp only [isQuit, beq_eq_false_iff_ne.mpr hlen, beq_eq_false_iff_ne.mpr hcmp, Bool.or_self]

theorem Command.length_of_match {cmd : Command} {keyword : Bytes} {n : Nat}
    (hk : n ≤ (cstr keyword).length) (h : strncasecmp cmd.bytes keyword n = 0) :
    n ≤ cmd.bytes.length := by
  have hlen := congrArg List.length ((strncasecmp_eq_zero_iff _ _ _).mp h)
  have hle := cstr_length_le cmd.bytes
  simp only [List.length_map, List.length_take] at hlen
  omega

/-- The branch that answers it does not look at the message again. -/
theorem Command.Parameterless.keyword {cmd : Command} (h : cmd.Parameterless) :
    ∃ k : Keyword, k.Selects cmd.bytes ∧
      ∀ (db : XmlDatabase) (r r' w : Bytes), k.handle db r w = k.handle db r' w := by
  rcases h with hsupport | hlvr | hsvr
  · exact ⟨.supportSdks, hsupport, fun _ _ _ _ => rfl⟩
  · exact ⟨.lvrSdkVersion, hlvr, fun _ _ _ _ => rfl⟩
  · exact ⟨.svrSdkVersion, hsvr, fun _ _ _ _ => rfl⟩

theorem reply_parameterless (db : XmlDatabase) {c : Chunk} {cmd : Command} {rest : Bytes}
    (hc : c.bytes = cmd.bytes ++ rest) (hcmd : cmd.Parameterless) :
    reply db c = reply db cmd.chunk := by
  obtain ⟨k, hsel, hsame⟩ := hcmd.keyword
  have hlen : k.compared ≤ cmd.bytes.length := Command.length_of_match k.compared_le hsel
  have hfront (behind : Bytes) : selected (cmd.bytes ++ behind) = some k := by
    rw [selected_eq_some_iff]
    exact (strncasecmp_append hlen behind k.text).trans hsel
  have hchunk : selected (rbuff c) = some k := by
    rw [rbuff, hc, List.append_assoc]
    exact hfront _
  have hown : selected (rbuff cmd.chunk) = some k := by
    rw [cmd.rbuff_chunk]
    exact hfront _
  rw [reply, reply, answer, answer, processMessage_eq, processMessage_eq, hchunk, hown]
  dsimp only
  rw [hsame db (rbuff c) (rbuff cmd.chunk)]

/-! ## What a client that sends commands hears -/

/-- A connection is offered one reply for each read in front of its end, the answer to
the bytes of that read; so the replies are those to the commands sent when each is
delivered by one read, and a read that runs on behind a command without parameter
has the reply to that command alone. -/
theorem one_reply_per_read {db : XmlDatabase} {wakeupRead wakeupWrite listenFd : Int}
    {len : UInt32} {s : ServerListener} {log : List Event}
    (h : serverLoop.Reach FreshAccept
      (ServerListener.start wakeupRead wakeupWrite listenFd db len) s log) :
    ∀ l ∈ connections log,
      ((∀ c ∈ Conversation.chunks l, ¬ Overruns db c) →
        Conversation.offered l =
          ((Conversation.chunks l).takeWhile fun c => !isQuit c).map (reply db)) ∧
      (∀ (cmds : List Command) (ending : Option Chunk), (∀ c ∈ ending, isQuit c = true) →
        Conversation.chunks l = cmds.map Command.chunk ++ ending.toList →
        Conversation.offered l = commandReplies db cmds ∧
          (Conversation.WritesWhole l →
            (Conversation.written l).flatten = (commandReplies db cmds).flatten)) ∧
      ∀ c ∈ Conversation.chunks l, ∀ (cmd : Command) (rest : Bytes),
        c.bytes = cmd.bytes ++ rest → cmd.Parameterless → reply db c = reply db cmd.chunk := by
  intro l hl
  have hconv := (reach_tracks h).1.run.conversed l hl
  have hreads (hsafe : ∀ c ∈ Conversation.chunks l, ¬ Overruns db c) :
      Conversation.offered l =
        ((Conversation.chunks l).takeWhile fun c => !isQuit c).map (reply db) := by
    rw [hconv.answered hsafe, replies_eq_map]
  refine ⟨hreads, ?_, fun c _ cmd rest hc hcmd => reply_parameterless db hc hcmd⟩
  intro cmds ending hending hchunks
  have hsafe : ∀ c ∈ Conversation.chunks l, ¬ Overruns db c := by
    intro c hc
    rw [hchunks] at hc
    rcases List.mem_append.mp hc with hc | hc
    · obtain ⟨cmd, -, rfl⟩ := List.mem_map.mp hc
      exact cmd.not_overruns db
    · exact not_overruns_of_isQuit (hending c (Option.mem_toList.mp hc))
  have hoffered : Conversation.offered l = commandReplies db cmds := by
    rw [hreads hsafe, hchunks, List.takeWhile_append_of_pos, commandReplies]
    · cases ending with
      | none => simp
      | some c => simp [hending c rfl]
    · intro c hc
      obtain ⟨cmd, -, rfl⟩ := List.mem_map.mp hc
      rw [cmd.isQuit_chunk]
      rfl
  exact ⟨hoffered, fun hwhole => by rw [Conversation.written_of_whole hwhole, hoffered]⟩

/-- The commands that ask for the version of the LVR and of the SVR SDK. -/
def lvrVersion : Command := ⟨ascii "lvr_sdk_version", by decide, by decide, by decide, by decide⟩
def svrVersion : Command := ⟨ascii "svr_sdk_version", by decide, by decide, by decide, by decide⟩

/-- A client connects and each read of the server takes one of these chunks. -/
def readTurns (chunks : List Chunk) : List Turn :=
  ⟨.ready 1 [5], (7, 2), fun _ => ⟨.failed, none, []⟩⟩ ::
    chunks.map fun c => ⟨.ready 1 [7], (-1, 2), fun _ => ⟨.chunk c, some 2, []⟩⟩

theorem one_reply_per_read_version :
    let cmds := [lvrVersion, svrVersion, lvrVersion]
    let quit : Chunk := ⟨ascii "quit", by decide⟩
    let r := serverLoop.run (ServerListener.start 3 4 5 longVersionStore 0)
      (readTurns (cmds.map Command.chunk ++ [quit]))
    ∃ l ∈ connections r.2, l.closed = true ∧
      Conversation.offered l = commandReplies longVersionStore cmds := by
  intro cmds quit r
  have hreach : serverLoop.Reach FreshAccept (ServerListener.start 3 4 5 longVersionStore 0)
      r.1 ([] ++ r.2) := Machine.Reach.start.run (by decide)
  let l : Conversation := ⟨7, [.read (.chunk lvrVersion.chunk), .wrote (ascii "1") (some 2),
    .read (.chunk svrVersion.chunk), .wrote (ascii "-3") (some 2),
    .read (.chunk lvrVersion.chunk), .wrote (ascii "1") (some 2), .read (.chunk quit)], true⟩
  have hl : l ∈ connections r.2 := by decide +kernel
  obtain ⟨-, hcommands, -⟩ := one_reply_per_read hreach l hl
  have hending : ∀ c ∈ some quit, isQuit c = true := by decide +kernel
  exact ⟨l, hl, rfl, (hcommands cmds (some quit) hending rfl).1⟩

/-- Two commands that one read delivers get one reply. -/
theorem one_reply_per_read_fails :
    ¬ ∀ (db : XmlDatabase) (wakeupRead wakeupWrite listenFd : Int) (len : UInt32)
        (s : ServerListener) (log : List Event),
        serverLoop.Reach FreshAccept
          (ServerListener.start wakeupRead wakeupWrite listenFd db len) s log →
        ∀ l ∈ connections log, ∀ cmds : List Command, Conversation.stream l = sent cmds →
          (Conversation.offered l).flatten = (commandReplies db cmds).flatten := by
  intro hall
  let c : Chunk := ⟨lvrVersion.bytes ++ lvrVersion.bytes, by decide⟩
  have hadmits : serverLoop.Admits FreshAccept (ServerListener.start 3 4 5 longVersionStore 0) []
      (readTurns [c]) := by decide
  have hone := hall longVersionStore 3 4 5 0 _ _ (Machine.Reach.start.run hadmits)
    ⟨7, [.read (.chunk c), .wrote (ascii "1") (some 2)], false⟩ (by decide +kernel)
    [lvrVersion, lvrVersion] rfl
  exact absurd hone (by decide +kernel)

end VRAdmin
