import VRAdmin.Server.Conversations
import VRAdmin.Server.SdkReplies

/-! # The server as a directory of SDKs

What the socket server is for, in terms of the documents alone: the names of the SDKs,
the version of one, the feature word of one of its external SDKs. Queries are found in
messages and answers written as replies; a client that reads its replies back learns
what the directory says, except where a text cannot be told from an error code or does
not fit.
-/

namespace VRAdmin

open Foundation ClientConnector

/-- What a client asks for. -/
inductive Query
  | sdks
  | version (type : CString)
  | feature (type version : CString)
deriving DecidableEq

/-- What the directory answers. -/
inductive Found
  | sdks (names : List CString)
  | version (v : CString)
  | feature (word : UInt64)
  | missing
deriving DecidableEq

/-- The answers of the documents: the distinct root names, and for a type, up to case,
the version of its earliest document and the items of all documents of that name. -/
def directory (ds : List Document) : Query → Found
  | .sdks => .sdks ((ds.map (·.name)).eraseDups)
  | .version type =>
      match ds.find? fun d => type.EqIgnoreCase d.name with
      | none => .missing
      | some d => .version d.version
  | .feature type v =>
      match ds.find? fun d => type.EqIgnoreCase d.name with
      | none => .missing
      | some d => .feature (((features d.name ds).lookup (v.upTo 46)).getD 0)

/-! ## Queries and answers on the wire -/

def Keyword.query (k : Keyword) (r : Bytes) : Query :=
  match k with
  | supportSdks => .sdks
  | lvrSdkVersion => .version (CString.lit "lvr")
  | svrSdkVersion => .version (CString.lit "svr")
  | lvrFeature => .feature (CString.lit "lvr") (CString.ofMem (r.drop 12))
  | svrFeature => .feature (CString.lit "svr") (CString.ofMem (r.drop 12))

/-- The query of a message, if it has one. -/
def queryOf (c : Chunk) : Option Query := (selected (rbuff c)).map fun k => k.query (rbuff c)

def joinedNames (names : List CString) : Bytes := List.intercalate [94] (names.map (·.bytes))

namespace Found

def text : Found → Option Bytes
  | sdks names => some (joinedNames names)
  | version v => some v.bytes
  | feature word => some (decimal word.toNat)
  | missing => none

/-- The reply that carries an answer. -/
def sent (f : Found) : Bytes := replyText f.text

/-- A client can tell the answer from its reply. -/
def Legible : Found → Prop
  | sdks names => names = [] ∨ ((∀ name ∈ names, (94 : UInt8) ∉ name.bytes) ∧ joinedNames names ≠ [] ∧
      (joinedNames names).length ≤ buffSize ∧ joinedNames names ≠ ascii "-2")
  | version v => v.bytes.length ≤ buffSize ∧ v.bytes ≠ ascii "-2" ∧ v.bytes ≠ ascii "-3"
  | _ => True

end Found

/-- The client's reading of the reply to a query. -/
def heardAs : Query → Bytes → Found
  | .sdks, text =>
      if text = ascii "-2" then .sdks [] else .sdks ((text.splitOn 94).map CString.ofMem)
  | .version _, text =>
      if text = ascii "-3" then .missing
      else if text = ascii "-2" then .version default
      else .version (CString.ofMem text)
  | .feature _ _, text =>
      if text = ascii "-3" then .missing else .feature (UInt64.ofNat (digitsValue text))

/-- The answer to a message as the directory has it. -/
def directoryReply (ds : List Document) (c : Chunk) : Bytes :=
  match queryOf c with
  | none => ascii "-1"
  | some q => (directory ds q).sent

/-! ## The server answers as the directory -/

theorem versionText_directory (calls : List ParserCall) (type : CString) :
    versionText (parseAll calls) type = (directory (documents calls) (.version type)).text := by
  rw [versionText, parseAll_eq_storeOf, getSDK_storeOf, directory]
  cases hd : (documents calls).find? fun d => type.EqIgnoreCase d.name with
  | none => rfl
  | some d => exact congrArg (fun v : CString => some v.bytes) (entryOf_of_earliest hd)

theorem featureText_directory (calls : List ParserCall) (type : CString) (r : Bytes) :
    featureText (parseAll calls) type r =
      (directory (documents calls) (.feature type (CString.ofMem (r.drop 12)))).text := by
  rw [featureText, parseAll_eq_storeOf, getSDK_storeOf, directory]
  cases hd : (documents calls).find? fun d => type.EqIgnoreCase d.name with
  | none => rfl
  | some d =>
      have hfeature := getFeature_entryOf (documents calls) d.name (CString.ofMem (r.drop 12))
      exact congrArg (fun word : UInt64 => some (decimal word.toNat)) hfeature

theorem source_directory (calls : List ParserCall) (k : Keyword) (r : Bytes) :
    k.source (parseAll calls) r = (directory (documents calls) (k.query r)).text := by
  cases k with
  | supportSdks => exact congrArg some (getAllSDKTypes_eq calls)
  | lvrSdkVersion => exact versionText_directory calls _
  | svrSdkVersion => exact versionText_directory calls _
  | lvrFeature => exact featureText_directory calls _ r
  | svrFeature => exact featureText_directory calls _ r

theorem reply_directory (calls : List ParserCall) (c : Chunk) :
    reply (parseAll calls) c = directoryReply (documents calls) c := by
  rw [reply, answer_eq, replyOf, directoryReply, queryOf]
  cases hk : selected (rbuff c) with
  | none => rfl
  | some k => exact congrArg replyText (source_directory calls k (rbuff c))

/-! ## What a client can read back -/

theorem CString.map_ofMem_bytes (names : List CString) :
    (names.map (·.bytes)).map CString.ofMem = names := by
  rw [List.map_map]
  exact (List.map_congr_left fun name _ => name.ofMem_bytes).trans (List.map_id names)

theorem joinedNames_noNul (names : List CString) : (0 : UInt8) ∉ joinedNames names := by
  have hsdks := getAllSDKTypes_noNul ⟨names.map fun name => VrSDK.make name default⟩
  rwa [XmlDatabase.getAllSDKTypes, List.map_map] at hsdks

theorem mem_splitOn {sep : UInt8} {text piece : Bytes} (h : piece ∈ text.splitOn sep) :
    sep ∉ piece ∧ ∀ b ∈ piece, b ∈ text := by
  induction text generalizing piece with
  | nil =>
      obtain rfl : piece = [] := by simpa using h
      exact ⟨List.not_mem_nil, fun b hb => hb⟩
  | cons first rest ih =>
      have hkeep : ∀ p ∈ rest.splitOn sep, sep ∉ p ∧ ∀ b ∈ p, b ∈ first :: rest := fun p hp =>
        ⟨(ih hp).1, fun b hb => List.mem_cons_of_mem first ((ih hp).2 b hb)⟩
      rw [List.splitOn_cons_eq_if_modifyHead] at h
      by_cases hsep : first = sep
      · rw [if_pos (by simpa using hsep)] at h
        rcases List.mem_cons.mp h with rfl | h
        · exact ⟨List.not_mem_nil, fun b hb => absurd hb List.not_mem_nil⟩
        · exact hkeep piece h
      · rw [if_neg (by simpa using hsep)] at h
        obtain ⟨head, tail, hsplit⟩ := List.exists_cons_of_ne_nil (List.splitOn_ne_nil sep rest)
        rw [hsplit, List.modifyHead_cons] at h
        rcases List.mem_cons.mp h with rfl | h
        · obtain ⟨hhead, hsub⟩ := hkeep head (hsplit ▸ List.mem_cons_self)
          refine ⟨List.not_mem_cons_of_ne_of_not_mem (Ne.symm hsep) hhead, ?_⟩
          intro b hb
          rcases List.mem_cons.mp hb with rfl | hb
          · exact List.mem_cons_self
          · exact hsub b hb
        · exact hkeep piece (hsplit ▸ List.mem_cons_of_mem head h)

theorem joinedNames_splitOn {names : List CString} (hnames : ∀ name ∈ names, (94 : UInt8) ∉ name.bytes)
    (hsome : names ≠ []) : ((joinedNames names).splitOn 94).map CString.ofMem = names := by
  have hsplit : (joinedNames names).splitOn 94 = names.map (·.bytes) := by
    refine List.splitOn_intercalate 94 ?_ (mt List.map_eq_nil_iff.mp hsome)
    intro text htext
    obtain ⟨name, hname, rfl⟩ := List.mem_map.mp htext
    exact hnames name hname
  rw [hsplit, CString.map_ofMem_bytes]

theorem sent_version (v : CString) :
    (Found.version v).sent = if v.bytes = [] then ascii "-2" else v.bytes.take buffSize := rfl

theorem sent_sdks (names : List CString) :
    (Found.sdks names).sent =
      if joinedNames names = [] then ascii "-2" else (joinedNames names).take buffSize := rfl

theorem sent_feature (word : UInt64) : (Found.feature word).sent = decimal word.toNat := by
  show (if decimal word.toNat = [] then ascii "-2" else (decimal word.toNat).take buffSize) = _
  rw [if_neg (decimal_ne_nil _), List.take_of_length_le (decimal_word_fits word)]

/-- A version is read back unless it looks like an error code or is cut off. -/
theorem heardAs_version_iff (type v : CString) :
    heardAs (.version type) (Found.version v).sent = .version v ↔ (Found.version v).Legible := by
  rw [sent_version]
  by_cases hnil : v.bytes = []
  · have hv : v = default := CString.ext_bytes hnil
    subst hv
    exact iff_of_true rfl ⟨by decide, by decide, by decide⟩
  · rw [if_neg hnil]
    constructor
    · intro h
      simp only [heardAs] at h
      split at h
      · cases h
      · split at h
        · next hcode =>
            have hv := congrArg CString.bytes (Found.version.inj h)
            exact absurd hv.symm hnil
        · next h3 h2 =>
            have hv := congrArg CString.bytes (Found.version.inj h)
            have hlen : v.bytes.length ≤ buffSize := by
              calc v.bytes.length = (cstr (v.bytes.take buffSize)).length := congrArg List.length hv.symm
                _ ≤ (v.bytes.take buffSize).length := cstr_length_le _
                _ ≤ buffSize := List.length_take_le _ _
            rw [List.take_of_length_le hlen] at h2 h3
            exact ⟨hlen, h2, h3⟩
    · rintro ⟨hlen, h2, h3⟩
      rw [List.take_of_length_le hlen]
      simp only [heardAs, if_neg h3, if_neg h2, CString.ofMem_bytes]

/-- The list of names is read back unless a name has the separator in it, or the list
looks like the error code or is cut off. -/
theorem heardAs_sdks_iff (names : List CString) :
    heardAs .sdks (Found.sdks names).sent = .sdks names ↔ (Found.sdks names).Legible := by
  rw [sent_sdks]
  by_cases hnames : names = []
  · subst hnames
    exact iff_of_true rfl (Or.inl rfl)
  · have hlegible : (Found.sdks names).Legible ↔ ((∀ name ∈ names, (94 : UInt8) ∉ name.bytes) ∧
        joinedNames names ≠ [] ∧ (joinedNames names).length ≤ buffSize ∧
        joinedNames names ≠ ascii "-2") := or_iff_right hnames
    rw [hlegible]
    constructor
    · intro h
      by_cases hnil : joinedNames names = []
      · rw [if_pos hnil] at h
        exact absurd (Found.sdks.inj h).symm hnames
      · rw [if_neg hnil] at h
        simp only [heardAs] at h
        split at h
        · exact absurd (Found.sdks.inj h).symm hnames
        · next hcode =>
            have hread := Found.sdks.inj h
            have hpiece : ∀ piece ∈ ((joinedNames names).take buffSize).splitOn 94,
                (CString.ofMem piece).bytes = piece := by
              intro piece hpiece
              refine cstr_eq_self fun hnul => joinedNames_noNul names ?_
              exact List.mem_of_mem_take ((mem_splitOn hpiece).2 0 hnul)
            have hpieces : ((joinedNames names).take buffSize).splitOn 94 = names.map (·.bytes) := by
              have hbytes := congrArg (List.map (·.bytes)) hread
              rw [List.map_map] at hbytes
              exact ((List.map_congr_left hpiece).trans (List.map_id _)).symm.trans hbytes
            have hwhole : joinedNames names = (joinedNames names).take buffSize := by
              have hjoin : List.intercalate [94] (((joinedNames names).take buffSize).splitOn 94) =
                  (joinedNames names).take buffSize := List.intercalate_splitOn 94
              rwa [hpieces] at hjoin
            have hlen : (joinedNames names).length ≤ buffSize := by
              rw [hwhole]
              exact List.length_take_le _ _
            refine ⟨?_, hnil, hlen, hwhole ▸ hcode⟩
            intro name hname
            exact (mem_splitOn (hpieces ▸ List.mem_map_of_mem hname)).1
    · rintro ⟨hsep, hnil, hlen, hcode⟩
      rw [if_neg hnil, List.take_of_length_le hlen]
      simp only [heardAs, if_neg hcode, joinedNames_splitOn hsep hnames]

theorem heardAs_feature (type v : CString) (word : UInt64) :
    heardAs (.feature type v) (Found.feature word).sent = .feature word := by
  have hcode : decimal word.toNat ≠ ascii "-3" := by
    intro h
    have hdigit := isDigit_decimal (n := word.toNat) (b := 45) (h ▸ by decide)
    exact absurd hdigit (by decide)
  rw [sent_feature]
  simp only [heardAs, if_neg hcode, digitsValue_decimal, UInt64.ofNat_toNat]

theorem heardAs_directory_iff (ds : List Document) (q : Query) :
    heardAs q (directory ds q).sent = directory ds q ↔ (directory ds q).Legible := by
  cases q with
  | sdks => exact heardAs_sdks_iff _
  | version type =>
      dsimp only [directory]
      split
      · exact iff_of_true rfl trivial
      · exact heardAs_version_iff type _
  | feature type v =>
      dsimp only [directory]
      split
      · exact iff_of_true rfl trivial
      · exact iff_of_true (heardAs_feature type v _) trivial

/-- In every run of the server, what a connection whose requests stay inside `rbuff`
and whose writes are whole has received is the directory's replies to its own messages,
in order; and a client that reads a reply back learns the directory's answer exactly
when that answer is legible. -/
theorem server_directory (calls : List ParserCall) {wakeupRead wakeupWrite listenFd : Int}
    {len : UInt32} {s : ServerListener} {log : List Event}
    (h : serverLoop.Reach FreshAccept
      (ServerListener.start wakeupRead wakeupWrite listenFd (parseAll calls) len) s log)
    {l : Conversation} (hl : l ∈ connections log)
    (hsafe : ∀ c ∈ Conversation.chunks l, ¬ Overruns (parseAll calls) c)
    (hwhole : Conversation.WritesWhole l) :
    Conversation.written l =
      replies (directoryReply (documents calls)) (Conversation.chunks l) ∧
    ∀ c ∈ Conversation.chunks l, ∀ q, queryOf c = some q →
      (heardAs q (directoryReply (documents calls) c) = directory (documents calls) q ↔
        (directory (documents calls) q).Legible) := by
  have hreply : reply (parseAll calls) = directoryReply (documents calls) :=
    funext (reply_directory calls)
  refine ⟨?_, ?_⟩
  · rw [Conversation.written_of_whole hwhole,
      ((reach_tracks h).1.run.conversed l hl).answered hsafe, hreply]
  · intro c _ q hq
    rw [directoryReply, hq]
    exact heardAs_directory_iff (documents calls) q

/-! ## The shipped documents -/

/-- The calls that the constructor of `ServerListener` makes. -/
def ServerListener.parserCalls (xmlReadFile : CString → Option XmlDoc) : List ParserCall :=
  [⟨xmlReadFile, some (CString.lit "/system/vendor/etc/svrinfo.xml")⟩,
    ⟨xmlReadFile, some (CString.lit "/system/vendor/etc/lvrinfo.xml")⟩]

/-- The break before an element. -/
def lineBreak (text : String) : XmlNode := ⟨CString.lit "text", none, some (CString.lit text)⟩

def shippedItem (version : String) : List XmlNode :=
  [lineBreak "\n    ",
    ⟨CString.lit "ExternalSDK", some (CString.lit version), some (CString.lit "3")⟩]

/-- The two prebuilt files. -/
def shipped (filepath : CString) : Option XmlDoc :=
  let svr := shippedItem "Svr_C_001S"
  if filepath = CString.lit "/system/vendor/etc/svrinfo.xml" then
    some ⟨some ⟨CString.lit "SVR", some (CString.lit "Svr_S_001S.201610260000"),
      svr ++ svr ++ svr ++ [lineBreak "\n"]⟩⟩
  else if filepath = CString.lit "/system/vendor/etc/lvrinfo.xml" then
    some ⟨some ⟨CString.lit "LVR", some (CString.lit "Lvr_S_001S.201610260000"),
      shippedItem "Lvr_C_001S" ++ [lineBreak "\n"]⟩⟩
  else none

/-- A client of the shipped server asks for the feature word of `Lvr_C_001S.7`. -/
theorem server_directory_shipped :
    let ask : Int → ConnIo := fun _ => ⟨.chunk ⟨ascii "LVR_feature:Lvr_C_001S.7", by decide⟩,
      some 1, []⟩
    let turns : List Turn := [⟨.ready 1 [5], (7, 2), ask⟩, ⟨.ready 1 [7], (-1, 2), ask⟩]
    let calls := ServerListener.parserCalls shipped
    let r := serverLoop.run (ServerListener.start 3 4 5 (parseAll calls) 0) turns
    ∃ l ∈ connections r.2, Conversation.written l = [ascii "3"] := by
  intro ask turns calls r
  have hreach : serverLoop.Reach FreshAccept
      (ServerListener.start 3 4 5 (parseAll calls) 0) r.1 ([] ++ r.2) :=
    Machine.Reach.start.run (by decide)
  let l : Conversation := ⟨7, [.read (.chunk ⟨ascii "LVR_feature:Lvr_C_001S.7", by decide⟩),
    .wrote (ascii "3") (some 1)], false⟩
  have hl : l ∈ connections r.2 := by decide +kernel
  have hsafe : ∀ c ∈ Conversation.chunks l, ¬ Overruns (parseAll calls) c := by decide +kernel
  have hwhole : Conversation.WritesWhole l := by
    intro buf taken hmem
    simp only [l, List.mem_cons, reduceCtorEq, ConnAct.wrote.injEq, List.not_mem_nil, or_false,
      false_or] at hmem
    rw [hmem.2, hmem.1]
    rfl
  refine ⟨l, hl, ?_⟩
  rw [(server_directory calls hreach hl hsafe hwhole).1]
  decide +kernel

end VRAdmin
