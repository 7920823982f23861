import VRAdmin.Sdk.XmlDatabase

/-! # One client connection

`ClientConnector::postSelect` reads one chunk from a ready connection and writes
at most one reply. The kernel's answers to its calls are inputs; so are the bytes
that lie behind `rbuff` on the stack, since `read` may fill all of `rbuff` and a
string scan then runs past it. Numbers are formatted as on LP64.
-/

namespace VRAdmin

open Foundation

/-- `BUFF_SIZE`; both buffers of `postSelect` are one byte longer. -/
def buffSize : Nat := 64

/-- What a successful `read(mConnID, rbuff, sizeof(rbuff))` delivered; nothing
at the end of the stream. -/
structure Chunk where
  bytes : Bytes
  fits : bytes.length ≤ buffSize + 1
deriving DecidableEq

inductive ReadResult
  | failed
  | chunk (c : Chunk)
deriving DecidableEq

/-- The calls that `ServerListener::run` makes on the kernel and on itself, with
their results. A write carries the buffer and the number of bytes taken. -/
inductive Event
  | select (maxfd : Int) (requested : List Int)
  | readWakeup (fd : Int)
  | accept (fd : Int) (len : UInt32) (confd : Int)
  | addConnector (confd ret : Int)
  | read (fd : Int) (result : ReadResult)
  | write (fd : Int) (buf : Bytes) (taken : Option Nat)
  | delConnector (confd : Int)
  | close (fd : Int)
deriving DecidableEq

/-- The kernel's side of one `postSelect` call, and the stack behind `rbuff`. -/
structure ConnIo where
  read : ReadResult
  write : Option Nat
  behind : Bytes

def resultErr : Int := -1
def resultOk : Int := 0
def resultQuit : Int := 1

namespace ClientConnector

/-- The zero-initialized buffer after `read`. -/
def rbuff (c : Chunk) : Bytes :=
  c.bytes ++ List.replicate (buffSize + 1 - c.bytes.length) 0

def wbuff : Bytes := List.replicate (buffSize + 1) 0

/-- The answer of the `_sdk_version` commands. -/
def sdkVersion (db : XmlDatabase) (type : CString) (w : Bytes) : Int × Bytes :=
  match db.deref (db.getSDK type) with
  | none => (-3, w)
  | some sdk =>
      let ver := sdk.mVersion.bytes
      if ver = [] then (-2, w) else (0, strncpy w ver buffSize)

/-- The answer of the `_feature:` commands; the version string starts behind
the keyword. -/
def sdkFeature (db : XmlDatabase) (type : CString) (r w : Bytes) : Int × Bytes :=
  match db.deref (db.getSDK type) with
  | none => (-3, w)
  | some sdk =>
      let f := sdk.getFeature (some (CString.ofMem (r.drop 12)))
      (0, sprintf w (decimal f.toNat))

def processMessage (db : XmlDatabase) (r w : Bytes) : Int × Bytes :=
  if strncasecmp r (ascii "support_sdks") 6 = 0 then
    let types := db.getAllSDKTypes
    if types = [] then (-2, w) else (0, strncpy w types buffSize)
  else if strncasecmp r (ascii "lvr_sdk_version") 15 = 0 then sdkVersion db (CString.lit "lvr") w
  else if strncasecmp r (ascii "svr_sdk_version") 15 = 0 then sdkVersion db (CString.lit "svr") w
  else if strncasecmp r (ascii "lvr_feature:") 12 = 0 then sdkFeature db (CString.lit "lvr") r w
  else if strncasecmp r (ascii "svr_feature:") 12 = 0 then sdkFeature db (CString.lit "svr") r w
  else (-1, w)

/-- The `strlen(wbuff)` bytes that `postSelect` writes for a message. -/
def answer (db : XmlDatabase) (r : Bytes) : Bytes :=
  let (ret, w) := processMessage db r wbuff
  cstr (if ret < 0 then sprintf w (decimalInt ret) else w)

/-- The chunks that end a connection: the end of the stream and `quit`. -/
def isQuit (c : Chunk) : Bool :=
  c.bytes.length == 0 || strncmp (rbuff c) (ascii "quit") 4 == 0

/-- Add the connection to the requested set; the value bounds `maxfd`. -/
def preSelect (mConnID : Int) (rset : List Int) : List Int × Int :=
  (if mConnID > 0 then rset ++ [mConnID] else rset, mConnID)

def postSelect (mConnID : Int) (db : XmlDatabase) (rset : List Int) (io : ConnIo) :
    Int × List Event :=
  if mConnID < 0 ∨ mConnID ∉ rset then (resultErr, [])
  else match io.read with
    | .failed => (resultErr, [.read mConnID .failed])
    | .chunk c =>
        if isQuit c then (resultQuit, [.read mConnID (.chunk c)])
        else
          let buf := answer db (rbuff c ++ io.behind)
          (if io.write = none then resultErr else resultOk,
            [.read mConnID (.chunk c), .write mConnID buf io.write])

theorem postSelect_cases (conn : Int) (db : XmlDatabase) (rset : List Int) (io : ConnIo) :
    ((conn < 0 ∨ conn ∉ rset) ∧ postSelect conn db rset io = (resultErr, [])) ∨
    (¬ (conn < 0 ∨ conn ∉ rset) ∧
      (postSelect conn db rset io = (resultErr, [.read conn .failed]) ∨
      (∃ c, isQuit c = true ∧
        postSelect conn db rset io = (resultQuit, [.read conn (.chunk c)])) ∨
      (∃ c ret, isQuit c = false ∧ ret ≠ resultQuit ∧
        postSelect conn db rset io =
          (ret, [.read conn (.chunk c), .write conn (answer db (rbuff c ++ io.behind)) io.write])))) := by
  unfold postSelect
  by_cases hready : conn < 0 ∨ conn ∉ rset
  · exact Or.inl ⟨hready, if_pos hready⟩
  · refine Or.inr ⟨hready, ?_⟩
    rw [if_neg hready]
    cases io.read with
    | failed => exact Or.inl rfl
    | chunk c =>
        cases hq : isQuit c with
        | true => exact Or.inr (Or.inl ⟨c, hq, by simp [hq]⟩)
        | false =>
            refine Or.inr (Or.inr ⟨c, if io.write = none then resultErr else resultOk, hq, ?_, ?_⟩)
            · split <;> decide
            · simp [hq]

/-! ## Where the reply is a function of the chunk -/

/-- The scan of a feature request leaves `rbuff`: all its bytes are set and the
request finds its SDK. -/
def Overruns (db : XmlDatabase) (c : Chunk) : Prop :=
  (0 : UInt8) ∉ rbuff c ∧
    (strncasecmp (rbuff c) (ascii "lvr_feature:") 12 = 0 ∧ db.getSDK (CString.lit "lvr") ≠ none ∨
      strncasecmp (rbuff c) (ascii "svr_feature:") 12 = 0 ∧ db.getSDK (CString.lit "svr") ≠ none)

instance (db : XmlDatabase) (c : Chunk) : Decidable (Overruns db c) :=
  inferInstanceAs (Decidable (_ ∧ (_ ∧ _ ∨ _ ∧ _)))

/-- The reply as a function of the database and the chunk alone. -/
def reply (db : XmlDatabase) (c : Chunk) : Bytes := answer db (rbuff c)

@[simp] theorem rbuff_length (c : Chunk) : (rbuff c).length = buffSize + 1 := by
  have hfits := c.fits
  simp [rbuff]
  omega

/-- What ends a connection is no feature request. -/
theorem not_overruns_of_isQuit {db : XmlDatabase} {c : Chunk} (hq : isQuit c = true) :
    ¬ Overruns db c := by
  intro h
  rcases (Bool.or_eq_true _ _).mp hq with hempty | hquit
  · have hnil : c.bytes = [] := List.length_eq_zero_iff.mp (by simpa using hempty)
    exact h.1 (by simp [rbuff, hnil, buffSize])
  · have hbytes := (strncmp_eq_zero_iff _ _ _).mp (by simpa using hquit)
    have hkeyword (keyword : Bytes) (hne : ((cstr keyword).take 4).map tolower ≠
        (ascii "quit").map tolower) : strncasecmp (rbuff c) keyword 12 ≠ 0 := by
      rw [ne_eq, strncasecmp_eq_zero_iff]
      intro heq
      have hfour := congrArg (List.take 4) heq
      rw [← List.map_take, ← List.map_take, List.take_take, List.take_take,
        show min 4 12 = 4 from rfl, hbytes] at hfour
      exact hne hfour.symm
    rcases h.2 with ⟨hl, -⟩ | ⟨hs, -⟩
    · exact hkeyword _ (by decide) hl
    · exact hkeyword _ (by decide) hs

theorem strncasecmp_append {front : Bytes} {n : Nat} (hn : n ≤ front.length) (behind b : Bytes) :
    strncasecmp (front ++ behind) b n = strncasecmp front b n := by
  unfold strncasecmp
  induction n generalizing front b with
  | zero => rfl
  | succ n ih =>
      cases front with
      | nil => simp at hn
      | cons x front =>
          have hrec := @ih front (by simpa using hn) b.tail
          rw [compareBytes, compareBytes]
          dsimp only [List.cons_append, List.headD_cons, List.tail_cons]
          rw [hrec]
          rfl

theorem nul_mem_drop_of_keyword {r keyword : Bytes} {n : Nat} (hk : (cstr keyword).length = n)
    (h : strncasecmp r keyword n = 0) (hr : (0 : UInt8) ∈ r) : (0 : UInt8) ∈ r.drop n := by
  have hlen := congrArg List.length ((strncasecmp_eq_zero_iff r keyword n).mp h)
  simp only [List.length_map, List.length_take, hk] at hlen
  have hpre : r.take n <+: cstr r :=
    List.prefix_of_prefix_length_le (List.take_prefix n r) (List.takeWhile_prefix _)
      (by rw [List.length_take]; omega)
  have hnone : (0 : UInt8) ∉ r.take n := fun h0 => cstr_noNul r (hpre.subset h0)
  rw [← List.take_append_drop n r] at hr
  exact (List.mem_append.mp hr).resolve_left hnone

theorem rbuff_append_drop (c : Chunk) (behind : Bytes) :
    (rbuff c ++ behind).drop 12 = (rbuff c).drop 12 ++ behind :=
  List.drop_append_of_le_length (by rw [rbuff_length]; decide)

theorem sdkFeature_append {db : XmlDatabase} {type : CString} {c : Chunk} {keyword : Bytes}
    (hk : (cstr keyword).length = 12) (h : strncasecmp (rbuff c) keyword 12 = 0)
    (hsafe : (0 : UInt8) ∈ rbuff c ∨ db.getSDK type = none) (behind w : Bytes) :
    sdkFeature db type (rbuff c ++ behind) w = sdkFeature db type (rbuff c) w := by
  unfold sdkFeature
  rcases hsafe with hnul | hnone
  · have hstr : CString.ofMem ((rbuff c ++ behind).drop 12) = CString.ofMem ((rbuff c).drop 12) := by
      apply CString.ext_bytes
      rw [rbuff_append_drop]
      exact cstr_append_of_nul (nul_mem_drop_of_keyword hk h hnul) behind
    rw [hstr]
  · rw [hnone]
    rfl

/-- A feature request that does not overrun ends within `rbuff` or finds no SDK. -/
theorem ends_of_not_overruns {db : XmlDatabase} {c : Chunk} (h : ¬ Overruns db c) :
    (strncasecmp (rbuff c) (ascii "lvr_feature:") 12 = 0 →
      (0 : UInt8) ∈ rbuff c ∨ db.getSDK (CString.lit "lvr") = none) ∧
    (strncasecmp (rbuff c) (ascii "svr_feature:") 12 = 0 →
      (0 : UInt8) ∈ rbuff c ∨ db.getSDK (CString.lit "svr") = none) := by
  by_cases hnul : (0 : UInt8) ∈ rbuff c
  · exact ⟨fun _ => Or.inl hnul, fun _ => Or.inl hnul⟩
  · obtain ⟨hlvr, hsvr⟩ := not_or.mp fun hreq => h ⟨hnul, hreq⟩
    exact ⟨fun hk => Or.inr (not_not.mp fun hsome => hlvr ⟨hk, hsome⟩),
      fun hk => Or.inr (not_not.mp fun hsome => hsvr ⟨hk, hsome⟩)⟩

theorem processMessage_append {db : XmlDatabase} {c : Chunk} (h : ¬ Overruns db c)
    (behind w : Bytes) :
    processMessage db (rbuff c ++ behind) w = processMessage db (rbuff c) w := by
  have hcmp : ∀ (n : Nat) (b : Bytes), n ≤ 65 →
      strncasecmp (rbuff c ++ behind) b n = strncasecmp (rbuff c) b n := by
    intro n b hn
    exact strncasecmp_append (by rw [rbuff_length]; exact hn) behind b
  unfold processMessage
  rw [hcmp 6 _ (by decide), hcmp 15 _ (by decide), hcmp 15 _ (by decide), hcmp 12 _ (by decide),
    hcmp 12 _ (by decide)]
  obtain ⟨hlvrEnds, hsvrEnds⟩ := ends_of_not_overruns h
  by_cases hlvr : strncasecmp (rbuff c) (ascii "lvr_feature:") 12 = 0
  · rw [sdkFeature_append (by decide) hlvr (hlvrEnds hlvr)]
    simp only [hlvr, if_true]
  · rw [if_neg hlvr, if_neg hlvr]
    by_cases hsvr : strncasecmp (rbuff c) (ascii "svr_feature:") 12 = 0
    · rw [sdkFeature_append (by decide) hsvr (hsvrEnds hsvr)]
    · rw [if_neg hsvr, if_neg hsvr]

theorem answer_rbuff_append {db : XmlDatabase} {c : Chunk} (h : ¬ Overruns db c)
    (behind : Bytes) : answer db (rbuff c ++ behind) = reply db c := by
  rw [reply, answer, answer, processMessage_append h]

end ClientConnector

end VRAdmin
