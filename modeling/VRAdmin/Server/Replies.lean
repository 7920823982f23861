import VRAdmin.Foundation.Numerals
import VRAdmin.Server.Keywords

/-! # The reply to a message

A branch of `processMessage` has a text to send: the joined types, a version or a
numeral. `postSelect` sends its first 64 bytes, or an error code when the SDK is not
loaded or the text is empty. Whichever branch runs, `wbuff` is written inside its 65
bytes and stays terminated.
-/

namespace VRAdmin

open Foundation ClientConnector

/-! ## Writing to the buffer -/

/-- A buffer of the size of `wbuff` that holds a text. -/
structure Holds (w text : Bytes) : Prop where
  size : w.length = buffSize + 1
  reads : cstr w = text
  fits : text.length ≤ buffSize

theorem Holds.terminated {w text : Bytes} (h : Holds w text) : (0 : UInt8) ∈ w := by
  have hsize := h.size
  have hfits := h.fits
  rw [← h.reads] at hfits
  by_contra hnone
  rw [cstr_eq_self hnone] at hfits
  omega

theorem holds_wbuff : Holds wbuff [] := ⟨by decide, by decide, by decide⟩

/-- The copy that `strncpy` leaves in the fresh buffer. -/
theorem holds_strncpy {src : Bytes} (hsrc : (0 : UInt8) ∉ src) :
    Holds (strncpy wbuff src buffSize) (src.take buffSize) := by
  have hlen := List.length_take_le buffSize src
  have hnone : (0 : UInt8) ∉ src.take buffSize := fun h => hsrc (List.mem_of_mem_take h)
  have hcopy : strncpy wbuff src buffSize =
      src.take buffSize ++ List.replicate (buffSize + 1 - (src.take buffSize).length) 0 := by
    rw [strncpy, cstr_eq_self hsrc, List.append_assoc]
    congr 1
    show List.replicate (buffSize - (src.take buffSize).length) (0 : UInt8) ++ [0] = _
    rw [← List.replicate_succ', Nat.succ_sub hlen]
  refine ⟨?_, ?_, hlen⟩
  · rw [hcopy, List.length_append, List.length_replicate]
    omega
  · rw [hcopy, Nat.succ_sub hlen, List.replicate_succ]
    exact cstr_append_nul hnone _

theorem holds_sprintf {w text : Bytes} (hw : w.length = buffSize + 1) (htext : (0 : UInt8) ∉ text)
    (hfits : text.length ≤ buffSize) : Holds (sprintf w text) text := by
  refine ⟨?_, cstr_append_nul htext _, hfits⟩
  rw [sprintf, List.length_append, List.length_cons, List.length_drop]
  omega

/-! ## The text of a branch -/

def versionText (db : XmlDatabase) (type : CString) : Option Bytes :=
  (db.deref (db.getSDK type)).map (·.mVersion.bytes)

def featureText (db : XmlDatabase) (type : CString) (r : Bytes) : Option Bytes :=
  (db.deref (db.getSDK type)).map fun sdk =>
    decimal (sdk.getFeature (some (CString.ofMem (r.drop 12)))).toNat

/-- What a branch has to send; there is nothing when its SDK is not loaded. -/
def Keyword.source (k : Keyword) (db : XmlDatabase) (r : Bytes) : Option Bytes :=
  match k with
  | supportSdks => some db.getAllSDKTypes
  | lvrSdkVersion => versionText db (CString.lit "lvr")
  | svrSdkVersion => versionText db (CString.lit "svr")
  | lvrFeature => featureText db (CString.lit "lvr") r
  | svrFeature => featureText db (CString.lit "svr") r

/-- The bytes sent for a text or in its place. -/
def replyText : Option Bytes → Bytes
  | none => ascii "-3"
  | some text => if text = [] then ascii "-2" else text.take buffSize

theorem getAllSDKTypes_noNul (db : XmlDatabase) : (0 : UInt8) ∉ db.getAllSDKTypes := by
  have hjoin : ∀ texts : List Bytes, (∀ text ∈ texts, (0 : UInt8) ∉ text) →
      (0 : UInt8) ∉ List.intercalate (ascii "^") texts := by
    intro texts
    induction texts with
    | nil => simp [List.intercalate]
    | cons text rest ih =>
        intro htexts
        have hrest := ih fun t ht => htexts t (List.mem_cons_of_mem text ht)
        have htext := htexts text List.mem_cons_self
        cases rest with
        | nil => simpa [List.intercalate] using htext
        | cons next rest =>
            rw [List.intercalate_cons_cons, List.mem_append, List.mem_append]
            rintro ((h | h) | h)
            · exact htext h
            · exact absurd h (by decide)
            · exact hrest h
  apply hjoin
  intro text htext
  obtain ⟨sdk, -, rfl⟩ := List.mem_map.mp htext
  exact sdk.mType.noNul

/-- What a branch returns and leaves in the fresh buffer. -/
inductive Handled (source : Option Bytes) : Int × Bytes → Prop
  | missing : source = none → Handled source (-3, wbuff)
  | blank : source = some [] → Handled source (-2, wbuff)
  | sent {text w : Bytes} : source = some text → text ≠ [] → Holds w (text.take buffSize) →
      Handled source (0, w)

theorem handled_copy {text : Bytes} (htext : (0 : UInt8) ∉ text) :
    Handled (some text)
      (if text = [] then (-2, wbuff) else (0, strncpy wbuff text buffSize)) := by
  by_cases hnil : text = []
  · rw [if_pos hnil, hnil]
    exact .blank rfl
  · rw [if_neg hnil]
    exact .sent rfl hnil (holds_strncpy htext)

theorem handled_version (db : XmlDatabase) (type : CString) :
    Handled (versionText db type) (sdkVersion db type wbuff) := by
  unfold versionText sdkVersion
  cases db.deref (db.getSDK type) with
  | none => exact .missing rfl
  | some sdk => exact handled_copy sdk.mVersion.noNul

/-- A feature word has at most 20 digits. -/
theorem decimal_word_fits (f : UInt64) : (decimal f.toNat).length ≤ buffSize := by
  have hdigits := decimal_length_le (k := 20) (by decide) (Nat.lt_trans f.toNat_lt (by decide))
  exact Nat.le_trans hdigits (by decide)

theorem handled_feature (db : XmlDatabase) (type : CString) (r : Bytes) :
    Handled (featureText db type r) (sdkFeature db type r wbuff) := by
  unfold featureText sdkFeature
  cases db.deref (db.getSDK type) with
  | none => exact .missing rfl
  | some sdk =>
      refine .sent rfl (decimal_ne_nil _) ?_
      rw [List.take_of_length_le (decimal_word_fits _)]
      exact holds_sprintf (by decide) (decimal_noNul _) (decimal_word_fits _)

theorem Keyword.handled (k : Keyword) (db : XmlDatabase) (r : Bytes) :
    Handled (k.source db r) (k.handle db r wbuff) := by
  cases k with
  | supportSdks => exact handled_copy (getAllSDKTypes_noNul db)
  | lvrSdkVersion => exact handled_version db _
  | svrSdkVersion => exact handled_version db _
  | lvrFeature => exact handled_feature db _ r
  | svrFeature => exact handled_feature db _ r

/-! ## The reply -/

/-- `wbuff` when it is handed to `write`. -/
def outgoing (m : Int × Bytes) : Bytes := if m.1 < 0 then sprintf m.2 (decimalInt m.1) else m.2

theorem holds_error {ret : Int} (hret : ret ∈ [-1, -2, -3]) :
    Holds (outgoing (ret, wbuff)) (decimalInt ret) := by
  have hcodes : ∀ ret ∈ [(-1 : Int), -2, -3],
      ret < 0 ∧ (0 : UInt8) ∉ decimalInt ret ∧ (decimalInt ret).length ≤ buffSize := by decide
  obtain ⟨hneg, hnul, hfits⟩ := hcodes ret hret
  rw [outgoing, if_pos hneg]
  exact holds_sprintf holds_wbuff.size hnul hfits

theorem Handled.holds {source : Option Bytes} {m : Int × Bytes} (h : Handled source m) :
    (∃ text, Holds m.2 text) ∧ Holds (outgoing m) (replyText source) := by
  cases h with
  | missing hsource =>
      subst hsource
      exact ⟨⟨[], holds_wbuff⟩, holds_error (by decide)⟩
  | blank hsource =>
      subst hsource
      exact ⟨⟨[], holds_wbuff⟩, holds_error (by decide)⟩
  | sent hsource hne hw =>
      subst hsource
      refine ⟨⟨_, hw⟩, ?_⟩
      rw [replyText, if_neg hne]
      exact hw

/-- The reply that a message has, by its keyword. -/
def replyOf (db : XmlDatabase) (r : Bytes) : Bytes :=
  match selected r with
  | some k => replyText (k.source db r)
  | none => ascii "-1"

theorem replyOf_some {db : XmlDatabase} {r : Bytes} {k : Keyword} (h : k.Selects r) :
    replyOf db r = replyText (k.source db r) := by
  rw [replyOf, (selected_eq_some_iff r k).mpr h]

theorem replyOf_none {db : XmlDatabase} {r : Bytes} (h : selected r = none) :
    replyOf db r = ascii "-1" := by
  rw [replyOf, h]

theorem processMessage_holds (db : XmlDatabase) (r : Bytes) :
    (∃ text, Holds (processMessage db r wbuff).2 text) ∧
      Holds (outgoing (processMessage db r wbuff)) (replyOf db r) := by
  rw [processMessage_eq]
  cases hs : selected r with
  | some k =>
      rw [replyOf_some ((selected_eq_some_iff r k).mp hs)]
      exact (k.handled db r).holds
  | none =>
      rw [replyOf_none hs]
      exact ⟨⟨[], holds_wbuff⟩, holds_error (by decide)⟩

theorem answer_eq (db : XmlDatabase) (r : Bytes) : answer db r = replyOf db r :=
  (processMessage_holds db r).2.reads

theorem replyText_cases (source : Option Bytes) :
    replyText source ∈ [ascii "-2", ascii "-3"] ∨
      ∃ text, source = some text ∧ text ≠ [] ∧ replyText source = text.take buffSize := by
  cases source with
  | none => exact Or.inl (by decide)
  | some text =>
      rw [replyText]
      by_cases hnil : text = []
      · rw [if_pos hnil]
        exact Or.inl (by decide)
      · rw [if_neg hnil]
        exact Or.inr ⟨text, rfl, hnil, rfl⟩

theorem replyOf_ne_nil (db : XmlDatabase) (r : Bytes) : replyOf db r ≠ [] := by
  cases hs : selected r with
  | none =>
      rw [replyOf_none hs]
      decide
  | some k =>
      rw [replyOf_some ((selected_eq_some_iff r k).mp hs)]
      rcases replyText_cases (k.source db r) with hcode | ⟨text, -, hne, heq⟩
      · intro hnil
        rw [hnil] at hcode
        exact absurd hcode (by decide)
      · rw [heq]
        exact fun h => hne ((List.take_eq_nil_iff.mp h).resolve_left (by decide))

theorem featureText_take {db : XmlDatabase} {type : CString} {r text : Bytes}
    (h : featureText db type r = some text) : text.take buffSize = text := by
  obtain ⟨sdk, -, rfl⟩ := Option.map_eq_some_iff.mp h
  exact List.take_of_length_le (decimal_word_fits _)

/-- The forms of a reply: a prefix of the joined types or of the version asked for, the
whole numeral of a feature word asked for, or an error code. -/
inductive ReplyForm (db : XmlDatabase) (r : Bytes) : Bytes → Prop
  | types {buf : Bytes} : Keyword.supportSdks.Selects r → buf <+: db.getAllSDKTypes →
      ReplyForm db r buf
  | version {k : Keyword} {type : CString} {sdk : VrSDK} {buf : Bytes} :
      k.versionType = some type → k.Selects r → db.deref (db.getSDK type) = some sdk →
      buf <+: sdk.mVersion.bytes → ReplyForm db r buf
  | feature {k : Keyword} {type : CString} {sdk : VrSDK} :
      k.featureType = some type → k.Selects r → db.deref (db.getSDK type) = some sdk →
      ReplyForm db r (decimal (sdk.getFeature (some (CString.ofMem (r.drop 12)))).toNat)
  | error {buf : Bytes} : buf ∈ [ascii "-1", ascii "-2", ascii "-3"] → ReplyForm db r buf

theorem replyForm_version {db : XmlDatabase} {r : Bytes} {k : Keyword} {type : CString}
    (hk : k.versionType = some type) (hsel : k.Selects r) {text : Bytes}
    (htext : versionText db type = some text) :
    ReplyForm db r (text.take buffSize) := by
  obtain ⟨sdk, hsdk, rfl⟩ := Option.map_eq_some_iff.mp htext
  exact .version hk hsel hsdk (List.take_prefix buffSize _)

theorem replyForm_feature {db : XmlDatabase} {r : Bytes} {k : Keyword} {type : CString}
    (hk : k.featureType = some type) (hsel : k.Selects r) {text : Bytes}
    (htext : featureText db type r = some text) :
    ReplyForm db r (text.take buffSize) := by
  rw [featureText_take htext]
  obtain ⟨sdk, hsdk, rfl⟩ := Option.map_eq_some_iff.mp htext
  exact .feature hk hsel hsdk

theorem replyOf_form (db : XmlDatabase) (r : Bytes) : ReplyForm db r (replyOf db r) := by
  cases hs : selected r with
  | none =>
      rw [replyOf_none hs]
      exact .error (by decide)
  | some k =>
      have hsel := (selected_eq_some_iff r k).mp hs
      rw [replyOf_some hsel]
      rcases replyText_cases (k.source db r) with hcode | ⟨text, htext, -, heq⟩
      · exact .error (List.mem_cons_of_mem _ hcode)
      · rw [heq]
        cases k with
        | supportSdks =>
            cases htext
            exact .types hsel (List.take_prefix buffSize _)
        | lvrSdkVersion => exact replyForm_version rfl hsel htext
        | svrSdkVersion => exact replyForm_version rfl hsel htext
        | lvrFeature => exact replyForm_feature rfl hsel htext
        | svrFeature => exact replyForm_feature rfl hsel htext

/-- A message that is terminated within `rbuff` and does not end the connection leaves
`wbuff` of its size and terminated, after `processMessage` and when it is written, and
gets one reply, of 1 to 64 bytes and of one of these forms. -/
theorem reply_fits (db : XmlDatabase) {c : Chunk} (hquit : isQuit c = false)
    (hnul : (0 : UInt8) ∈ rbuff c) (behind : Bytes) :
    let m := processMessage db (rbuff c ++ behind) wbuff
    (m.2.length = buffSize + 1 ∧ (0 : UInt8) ∈ m.2) ∧
    ((outgoing m).length = buffSize + 1 ∧ (0 : UInt8) ∈ outgoing m) ∧
    ∀ (conn : Int) (rset : List Int) (io : ConnIo), 0 < conn → conn ∈ rset →
      io.read = .chunk c → io.behind = behind →
      ∃ buf, (postSelect conn db rset io).2 = [.read conn (.chunk c), .write conn buf io.write] ∧
        1 ≤ buf.length ∧ buf.length ≤ buffSize ∧ ReplyForm db (rbuff c) buf := by
  intro m
  obtain ⟨⟨text, hm⟩, hout⟩ := processMessage_holds db (rbuff c ++ behind)
  refine ⟨⟨hm.size, hm.terminated⟩, ⟨hout.size, hout.terminated⟩, ?_⟩
  intro conn rset io hpos hready hread hbehind
  have hsafe : ¬ Overruns db c := fun h => h.1 hnul
  have hanswer : answer db (rbuff c ++ behind) = replyOf db (rbuff c) := by
    rw [answer_rbuff_append hsafe, reply, answer_eq]
  refine ⟨answer db (rbuff c ++ behind), ?_, ?_, ?_, ?_⟩
  · have hserved : ¬ (conn < 0 ∨ conn ∉ rset) := by
      rintro (hneg | hout)
      · omega
      · exact hout hready
    rw [postSelect, if_neg hserved, hread]
    dsimp only
    rw [hquit, hbehind]
    rfl
  · rw [hanswer]
    exact List.length_pos_of_ne_nil (replyOf_ne_nil db _)
  · rw [answer_eq]
    exact hout.fits
  · rw [hanswer]
    exact replyOf_form db _

theorem reply_fits_version :
    let db : XmlDatabase := ⟨[VrSDK.make (CString.lit "LVR") (CString.lit "1.2")]⟩
    let c : Chunk := ⟨ascii "lvr_sdk_version", by decide⟩
    ∃ buf, (postSelect 7 db [7] ⟨.chunk c, some 3, []⟩).2 =
        [.read 7 (.chunk c), .write 7 buf (some 3)] ∧
      1 ≤ buf.length ∧ buf.length ≤ 64 ∧ ReplyForm db (rbuff c) buf := by
  intro db c
  have hfits := reply_fits db (c := c) (by decide) (by decide) []
  exact hfits.2.2 7 [7] ⟨.chunk c, some 3, []⟩ (by decide) (by decide) rfl rfl

end VRAdmin
