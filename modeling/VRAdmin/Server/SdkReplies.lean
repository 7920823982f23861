import VRAdmin.Sdk.Lookups
import VRAdmin.Server.Replies

/-! # From the documents to the client

What the accepted documents say and what a client hears of it: the root names, joined
and split again, and a feature word, written in the document as a numeral, read by
`atoll`, stored as `uint64_t` and printed again.
-/

namespace VRAdmin

open Foundation ClientConnector

/-! ## The list of types -/

theorem getAllSDKTypes_eq (calls : List ParserCall) :
    (parseAll calls).getAllSDKTypes =
      List.intercalate [94] ((((documents calls).map (·.name)).eraseDups).map (·.bytes)) := by
  rw [XmlDatabase.getAllSDKTypes, parseAll_eq_storeOf, ← storeOf_types, List.map_map]
  rfl

/-- The reply to `support_sdks` splits into the distinct root names of the accepted
documents, in order of first appearance. -/
theorem types_decode {calls : List ParserCall}
    (hnames : ∀ d ∈ documents calls, (94 : UInt8) ∉ d.name.bytes)
    (hfits : (parseAll calls).getAllSDKTypes.length ≤ buffSize)
    (hsome : (parseAll calls).getAllSDKTypes ≠ []) {c : Chunk}
    (hc : StartsWith (rbuff c) (ascii "support_sdks")) (behind : Bytes) :
    (answer (parseAll calls) (rbuff c ++ behind)).splitOn 94 =
      (((documents calls).map (·.name)).eraseDups).map (·.bytes) := by
  have hsel : Keyword.supportSdks.Selects (rbuff c ++ behind) :=
    (Keyword.selects_append _ c behind).mpr (Keyword.selects_of_startsWith hc)
  have hanswer : answer (parseAll calls) (rbuff c ++ behind) = (parseAll calls).getAllSDKTypes := by
    rw [answer_eq, replyOf_some hsel, Keyword.source, replyText, if_neg hsome,
      List.take_of_length_le hfits]
  rw [hanswer, getAllSDKTypes_eq]
  refine List.splitOn_intercalate 94 ?_ ?_
  · intro text htext
    obtain ⟨name, hname, rfl⟩ := List.mem_map.mp htext
    obtain ⟨d, hd, rfl⟩ := List.mem_map.mp (List.mem_eraseDups.mp hname)
    exact hnames d hd
  · intro hnil
    rw [getAllSDKTypes_eq, hnil] at hsome
    exact hsome rfl

theorem types_decode_three :
    let calls := [callOf "LVR" "1", callOf "SVR" "2", callOf "LVR" "3"]
    (answer (parseAll calls) (rbuff ⟨ascii "support_sdks", by decide⟩ ++ [])).splitOn 94 =
      [ascii "LVR", ascii "SVR"] := by
  intro calls
  have hnames : ∀ d ∈ documents calls, (94 : UInt8) ∉ d.name.bytes := by decide
  exact types_decode hnames (by decide) (by decide) (by decide) []

/-! ## A feature word -/

theorem featureWord_numeral (n : Nat) :
    (XmlDatabase.featureWord (numeral n)).toNat = min n (2 ^ 63 - 1) := by
  have hmin : (min (n : Int) (2 ^ 63 - 1) % 2 ^ 64).toNat = min n (2 ^ 63 - 1) := by omega
  rw [XmlDatabase.featureWord, atoll_numeral, UInt64.ofInt, hmin, UInt64.toNat_ofNat']
  exact Nat.mod_eq_of_lt (by omega)

/-- An `ExternalSDK` element of this version. -/
def IsItem (v : CString) (node : XmlNode) : Prop :=
  node.name = CString.lit "ExternalSDK" ∧ node.version = some v

instance decidableIsItem (v : CString) (node : XmlNode) : Decidable (IsItem v node) :=
  inferInstanceAs (Decidable (_ ∧ _))

theorem item_of_isItem {v : CString} {node : XmlNode} (h : IsItem v node) {content : CString}
    (hcontent : node.content = some content) :
    node.item = some (v, XmlDatabase.featureWord content) := by
  rw [XmlNode.item, if_pos h.1, h.2, hcontent]
  rfl

theorem item_key {node : XmlNode} {entry : CString × UInt64} (h : node.item = some entry) :
    IsItem entry.1 node := by
  unfold XmlNode.item at h
  split at h
  · next hname =>
      cases hversion : node.version with
      | none => simp [hversion] at h
      | some version =>
          cases hcontent : node.content with
          | none => simp [hversion, hcontent] at h
          | some content =>
              simp only [hversion, hcontent, Option.pure_def, Option.bind_eq_bind,
                Option.bind_some, Option.some.injEq] at h
              exact ⟨hname, by rw [hversion, ← h]⟩
  · cases h

theorem lookup_items {children : List XmlNode} {v : CString} {node : XmlNode}
    (hnode : (children.find? fun node => IsItem v node) = some node) {content : CString}
    (hcontent : node.content = some content) :
    (children.filterMap (·.item)).lookup v = some (XmlDatabase.featureWord content) := by
  induction children with
  | nil => cases hnode
  | cons first rest ih =>
      by_cases hfirst : IsItem v first
      · rw [List.find?_cons_of_pos (by simpa using hfirst), Option.some.injEq] at hnode
        subst hnode
        rw [List.filterMap_cons_some (item_of_isItem hfirst hcontent), List.lookup_cons_self]
      · rw [List.find?_cons_of_neg (by simpa using hfirst)] at hnode
        cases hitem : first.item with
        | none => rw [List.filterMap_cons_none hitem, ih hnode]
        | some entry =>
            have hne : v ≠ entry.1 := by
              rintro rfl
              exact hfirst (item_key hitem)
            rw [List.filterMap_cons_some hitem, List.lookup_cons, beq_false_of_ne hne]
            exact ih hnode

theorem features_of_earliest {ds : List Document} {type : CString} {d : Document}
    (hd : (ds.find? fun d => type.EqIgnoreCase d.name) = some d) :
    ∃ rest, features d.name ds = d.items ++ rest := by
  have hmatch : type.EqIgnoreCase d.name := by simpa using List.find?_some hd
  obtain ⟨-, before, after, hds, hbefore⟩ := List.find?_eq_some_iff_append.mp hd
  have hnone : before.filter (fun e => e.name = d.name) = [] := by
    rw [List.filter_eq_nil_iff]
    intro e he hname
    have hother := hbefore e he
    rw [show e.name = d.name by simpa using hname] at hother
    simp [hmatch] at hother
  refine ⟨features d.name after, ?_⟩
  rw [hds, features, List.filter_append, hnone, List.nil_append,
    List.filter_cons_of_pos (by simp), List.flatMap_cons]
  rfl

theorem rbuff_request {c : Chunk} {keyword : Bytes} {v : CString} (hc : c.bytes = keyword ++ v.bytes)
    (hfits : c.bytes.length ≤ buffSize) (behind : Bytes) :
    ∃ rest, rbuff c ++ behind = keyword ++ (v.bytes ++ 0 :: rest) := by
  refine ⟨List.replicate (buffSize - c.bytes.length) 0 ++ behind, ?_⟩
  rw [rbuff, Nat.succ_sub hfits, List.replicate_succ, hc]
  simp

theorem request_read {keyword : Bytes} (hkeyword : (0 : UInt8) ∉ keyword) (v : CString)
    (rest : Bytes) :
    StartsWith (keyword ++ (v.bytes ++ 0 :: rest)) keyword ∧
      CString.ofMem ((keyword ++ (v.bytes ++ 0 :: rest)).drop keyword.length) = v := by
  constructor
  · have hnone : (0 : UInt8) ∉ keyword ++ v.bytes := by
      rw [List.mem_append]
      exact fun h => h.elim hkeyword v.noNul
    rw [StartsWith, ← List.append_assoc, cstr_append_nul hnone, List.map_append]
    exact List.prefix_append _ _
  · rw [List.drop_left]
    exact CString.ext_bytes (cstr_append_nul v.noNul rest)

theorem source_feature {k : Keyword} {type : CString} (hk : k.featureType = some type)
    (db : XmlDatabase) (r : Bytes) :
    k.source db r = featureText db type r ∧ (0 : UInt8) ∉ k.text ∧ k.text.length = 12 := by
  cases k with
  | supportSdks => cases hk
  | lvrSdkVersion => cases hk
  | svrSdkVersion => cases hk
  | lvrFeature =>
      cases hk
      exact ⟨rfl, by decide, by decide⟩
  | svrFeature =>
      cases hk
      exact ⟨rfl, by decide, by decide⟩

theorem answer_feature {calls : List ParserCall} {k : Keyword} {type : CString}
    (hk : k.featureType = some type) {d : Document}
    (hd : ((documents calls).find? fun d => type.EqIgnoreCase d.name) = some d) {v : CString}
    (hdot : (46 : UInt8) ∉ v.bytes) {node : XmlNode}
    (hnode : (d.children.find? fun node => IsItem v node) = some node) {content : CString}
    (hcontent : node.content = some content) {c : Chunk} (hc : c.bytes = k.text ++ v.bytes)
    (hfits : c.bytes.length ≤ buffSize) (behind : Bytes) :
    answer (parseAll calls) (rbuff c ++ behind) =
      decimal (XmlDatabase.featureWord content).toNat := by
  obtain ⟨rest, hmem⟩ := rbuff_request hc hfits behind
  obtain ⟨hsource, hnul, hlen⟩ := source_feature hk (parseAll calls) (rbuff c ++ behind)
  obtain ⟨hstarts, hversion⟩ := request_read hnul v rest
  rw [← hmem] at hstarts hversion
  rw [hlen] at hversion
  have hsdk : (parseAll calls).deref ((parseAll calls).getSDK type) =
      some (entryOf (documents calls) d.name) := by
    rw [parseAll_eq_storeOf, getSDK_storeOf, hd]
    rfl
  obtain ⟨others, hfeatures⟩ := features_of_earliest hd
  have hword : (entryOf (documents calls) d.name).getFeature (some v) =
      XmlDatabase.featureWord content := by
    rw [getFeature_entryOf, upTo_eq_self hdot, hfeatures, List.lookup_append, Document.items,
      lookup_items hnode hcontent]
    rfl
  have htext : k.source (parseAll calls) (rbuff c ++ behind) =
      some (decimal (XmlDatabase.featureWord content).toNat) := by
    rw [hsource, featureText, hsdk, Option.map_some, hversion, hword]
  rw [answer_eq, replyOf_some (Keyword.selects_of_startsWith hstarts), htext, replyText,
    if_neg (decimal_ne_nil _), List.take_of_length_le (decimal_word_fits _)]

/-- A mask survives from the document to the client exactly when it is below `2 ^ 63`. -/
theorem mask_survives {calls : List ParserCall} {k : Keyword} {type : CString}
    (hk : k.featureType = some type) {d : Document}
    (hd : ((documents calls).find? fun d => type.EqIgnoreCase d.name) = some d) {v : CString}
    (hdot : (46 : UInt8) ∉ v.bytes) {node : XmlNode}
    (hnode : (d.children.find? fun node => IsItem v node) = some node) {n : Nat}
    (hcontent : node.content = some (numeral n)) {c : Chunk} (hc : c.bytes = k.text ++ v.bytes)
    (hfits : c.bytes.length ≤ buffSize) (behind : Bytes) :
    answer (parseAll calls) (rbuff c ++ behind) = decimal n ↔ n < 2 ^ 63 := by
  rw [answer_feature hk hd hdot hnode hcontent hc hfits behind, featureWord_numeral]
  constructor
  · intro h
    have hsame := decimal_inj h
    omega
  · intro h
    rw [Nat.min_eq_left (by omega)]

/-- A document `LVR` with one element, of version 3. -/
def maskCall (n : Nat) : ParserCall :=
  ⟨fun _ => some ⟨some ⟨CString.lit "LVR", some (CString.lit "1"),
    [⟨CString.lit "ExternalSDK", some (CString.lit "3"), some (numeral n)⟩]⟩⟩, some default⟩

theorem mask_survives_largest :
    answer (parseAll [maskCall (2 ^ 63 - 1)]) (rbuff ⟨ascii "lvr_feature:3", by decide⟩ ++ []) =
      decimal (2 ^ 63 - 1) :=
  (mask_survives (show Keyword.lvrFeature.featureType = some (CString.lit "lvr") from rfl)
    (d := ⟨CString.lit "LVR", CString.lit "1",
      [⟨CString.lit "ExternalSDK", some (CString.lit "3"), some (numeral (2 ^ 63 - 1))⟩]⟩)
    (v := CString.lit "3") rfl (by decide) rfl rfl (by decide) (by decide) []).mpr (by decide)

/-- The mask with the highest bit alone comes back as the largest `long long`. -/
theorem mask_survives_fails :
    ¬ ∀ (calls : List ParserCall) (k : Keyword) (type : CString) (d : Document) (v : CString)
        (node : XmlNode) (n : Nat) (c : Chunk), k.featureType = some type →
      ((documents calls).find? fun d => type.EqIgnoreCase d.name) = some d →
      (46 : UInt8) ∉ v.bytes → (d.children.find? fun node => IsItem v node) = some node →
      n < 2 ^ 64 → node.content = some (numeral n) → c.bytes = k.text ++ v.bytes →
      c.bytes.length ≤ buffSize → answer (parseAll calls) (rbuff c) = decimal n := by
  intro hall
  have hmask := hall [maskCall (2 ^ 63)] .lvrFeature (CString.lit "lvr")
    ⟨CString.lit "LVR", CString.lit "1",
      [⟨CString.lit "ExternalSDK", some (CString.lit "3"), some (numeral (2 ^ 63))⟩]⟩
    (CString.lit "3") _ (2 ^ 63) ⟨ascii "lvr_feature:3", by decide⟩ rfl rfl (by decide) rfl
    (by decide) rfl (by decide) (by decide)
  exact absurd hmask (by decide +kernel)

end VRAdmin
