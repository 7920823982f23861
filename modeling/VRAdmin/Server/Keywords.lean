import VRAdmin.Server.ClientConnector

/-! # The keywords of the protocol

Each branch of `processMessage` compares the message with a keyword over a length of
its own. Four of the lengths are those of the keywords; the comparison with
`support_sdks` stops after six of its twelve bytes.
-/

namespace VRAdmin

open Foundation ClientConnector

inductive Keyword
  | supportSdks
  | lvrSdkVersion
  | svrSdkVersion
  | lvrFeature
  | svrFeature
deriving DecidableEq

namespace Keyword

/-- In the order of the branches. -/
def all : List Keyword := [supportSdks, lvrSdkVersion, svrSdkVersion, lvrFeature, svrFeature]

def text : Keyword → Bytes
  | supportSdks => ascii "support_sdks"
  | lvrSdkVersion => ascii "lvr_sdk_version"
  | svrSdkVersion => ascii "svr_sdk_version"
  | lvrFeature => ascii "lvr_feature:"
  | svrFeature => ascii "svr_feature:"

/-- The length that the branch compares. -/
def compared : Keyword → Nat
  | supportSdks => 6
  | lvrSdkVersion => 15
  | svrSdkVersion => 15
  | lvrFeature => 12
  | svrFeature => 12

/-- The SDK whose version the branch sends. -/
def versionType : Keyword → Option CString
  | lvrSdkVersion => some (CString.lit "lvr")
  | svrSdkVersion => some (CString.lit "svr")
  | _ => none

/-- The SDK whose features the branch looks up. -/
def featureType : Keyword → Option CString
  | lvrFeature => some (CString.lit "lvr")
  | svrFeature => some (CString.lit "svr")
  | _ => none

/-- The condition of the branch. -/
def Selects (k : Keyword) (r : Bytes) : Prop := strncasecmp r k.text k.compared = 0

instance decidableSelects (k : Keyword) (r : Bytes) : Decidable (k.Selects r) :=
  inferInstanceAs (Decidable (_ = _))

/-- The body of the branch. -/
def handle (k : Keyword) (db : XmlDatabase) (r w : Bytes) : Int × Bytes :=
  match k with
  | supportSdks =>
      if db.getAllSDKTypes = [] then (-2, w) else (0, strncpy w db.getAllSDKTypes buffSize)
  | lvrSdkVersion => sdkVersion db (CString.lit "lvr") w
  | svrSdkVersion => sdkVersion db (CString.lit "svr") w
  | lvrFeature => sdkFeature db (CString.lit "lvr") r w
  | svrFeature => sdkFeature db (CString.lit "svr") r w

theorem mem_all (k : Keyword) : k ∈ all := by
  cases k <;> decide

theorem compared_le_rbuff (k : Keyword) : k.compared ≤ buffSize + 1 := by
  cases k <;> decide

theorem compared_le (k : Keyword) : k.compared ≤ (cstr k.text).length := by
  cases k <;> decide

end Keyword

/-- The first branch whose condition holds. -/
def selected (r : Bytes) : Option Keyword := Keyword.all.find? fun k => k.Selects r

theorem selected_eq (r : Bytes) :
    selected r =
      if Keyword.supportSdks.Selects r then some .supportSdks
      else if Keyword.lvrSdkVersion.Selects r then some .lvrSdkVersion
      else if Keyword.svrSdkVersion.Selects r then some .svrSdkVersion
      else if Keyword.lvrFeature.Selects r then some .lvrFeature
      else if Keyword.svrFeature.Selects r then some .svrFeature
      else none := by
  have hcons (k : Keyword) (rest : List Keyword) :
      (k :: rest).find? (fun k => decide (k.Selects r)) =
        if k.Selects r then some k else rest.find? fun k => decide (k.Selects r) := by
    rw [List.find?_cons]
    by_cases h : k.Selects r
    · rw [if_pos h, decide_eq_true h]
    · rw [if_neg h, decide_eq_false h]
  rw [selected, Keyword.all, hcons, hcons, hcons, hcons, hcons, List.find?_nil]

theorem processMessage_branches (db : XmlDatabase) (r w : Bytes) :
    processMessage db r w =
      if Keyword.supportSdks.Selects r then Keyword.supportSdks.handle db r w
      else if Keyword.lvrSdkVersion.Selects r then Keyword.lvrSdkVersion.handle db r w
      else if Keyword.svrSdkVersion.Selects r then Keyword.svrSdkVersion.handle db r w
      else if Keyword.lvrFeature.Selects r then Keyword.lvrFeature.handle db r w
      else if Keyword.svrFeature.Selects r then Keyword.svrFeature.handle db r w
      else (-1, w) := rfl

theorem processMessage_eq (db : XmlDatabase) (r w : Bytes) :
    processMessage db r w =
      match selected r with
      | some k => k.handle db r w
      | none => (-1, w) := by
  rw [selected_eq, processMessage_branches]
  by_cases hsupport : Keyword.supportSdks.Selects r
  · rw [if_pos hsupport, if_pos hsupport]
  rw [if_neg hsupport, if_neg hsupport]
  by_cases hlvrVersion : Keyword.lvrSdkVersion.Selects r
  · rw [if_pos hlvrVersion, if_pos hlvrVersion]
  rw [if_neg hlvrVersion, if_neg hlvrVersion]
  by_cases hsvrVersion : Keyword.svrSdkVersion.Selects r
  · rw [if_pos hsvrVersion, if_pos hsvrVersion]
  rw [if_neg hsvrVersion, if_neg hsvrVersion]
  by_cases hlvr : Keyword.lvrFeature.Selects r
  · rw [if_pos hlvr, if_pos hlvr]
  rw [if_neg hlvr, if_neg hlvr]
  by_cases hsvr : Keyword.svrFeature.Selects r
  · rw [if_pos hsvr, if_pos hsvr]
  rw [if_neg hsvr, if_neg hsvr]

/-! ## One branch for a message -/

/-- The message starts with these bytes, ignoring ASCII case. -/
def StartsWith (r text : Bytes) : Prop := text.map tolower <+: (cstr r).map tolower

instance decidableStartsWith (r text : Bytes) : Decidable (StartsWith r text) :=
  inferInstanceAs (Decidable (_ <+: _))

theorem Keyword.selects_iff (k : Keyword) (r : Bytes) :
    k.Selects r ↔ StartsWith r (k.text.take k.compared) := by
  cases k with
  | supportSdks => exact strncasecmp_take_eq_zero_iff (by decide) (by decide) r
  | lvrSdkVersion => exact strncasecmp_take_eq_zero_iff (by decide) (by decide) r
  | svrSdkVersion => exact strncasecmp_take_eq_zero_iff (by decide) (by decide) r
  | lvrFeature => exact strncasecmp_take_eq_zero_iff (by decide) (by decide) r
  | svrFeature => exact strncasecmp_take_eq_zero_iff (by decide) (by decide) r

/-- The compared parts of two keywords part company in all messages. -/
theorem Keyword.selects_unique {k k' : Keyword} {r : Bytes} (h : k.Selects r)
    (h' : k'.Selects r) : k = k' := by
  have hdistinct : ∀ k ∈ all, ∀ k' ∈ all,
      (k.text.take k.compared).map tolower <+: (k'.text.take k'.compared).map tolower →
        k = k' := by decide
  rw [Keyword.selects_iff] at h h'
  rcases List.prefix_or_prefix_of_prefix h h' with hpre | hpre
  · exact hdistinct k k.mem_all k' k'.mem_all hpre
  · exact (hdistinct k' k'.mem_all k k.mem_all hpre).symm

theorem selected_eq_some_iff (r : Bytes) (k : Keyword) : selected r = some k ↔ k.Selects r := by
  constructor
  · intro h
    simpa using List.find?_some h
  · intro h
    cases hs : selected r with
    | none => exact absurd h (by simpa using List.find?_eq_none.mp hs k k.mem_all)
    | some k' =>
        have h' : k'.Selects r := by simpa using List.find?_some hs
        rw [Keyword.selects_unique h' h]

theorem selected_eq_none_iff (r : Bytes) : selected r = none ↔ ∀ k : Keyword, ¬ k.Selects r := by
  rw [selected, List.find?_eq_none]
  exact ⟨fun h k => by simpa using h k k.mem_all, fun h k _ => by simpa using h k⟩

/-- The keywords do not see what lies behind `rbuff`. -/
theorem Keyword.selects_append (k : Keyword) (c : Chunk) (behind : Bytes) :
    k.Selects (rbuff c ++ behind) ↔ k.Selects (rbuff c) := by
  unfold Keyword.Selects
  rw [strncasecmp_append (by rw [rbuff_length]; exact k.compared_le_rbuff)]

/-! ## What a message is treated as -/

/-- The message is answered by this branch, whatever the store and the buffer hold. -/
def Treats (r : Bytes) (k : Keyword) : Prop :=
  ∀ (db : XmlDatabase) (w : Bytes), processMessage db r w = k.handle db r w

/-- Stores on which the branches return different values. -/
def probes : List XmlDatabase :=
  [XmlDatabase.empty, ⟨[VrSDK.make (CString.lit "lvr") (CString.lit "")]⟩,
    ⟨[VrSDK.make (CString.lit "svr") (CString.lit "")]⟩]

def Keyword.probed : Keyword → List Int
  | supportSdks => [-2, 0, 0]
  | lvrSdkVersion => [-3, -2, -3]
  | svrSdkVersion => [-3, -3, -2]
  | lvrFeature => [-3, 0, -3]
  | svrFeature => [-3, -3, 0]

theorem Keyword.handle_probes (k : Keyword) (r w : Bytes) :
    probes.map (fun db => (k.handle db r w).1) = k.probed := by
  cases k with
  | supportSdks => rfl
  | lvrSdkVersion => rfl
  | svrSdkVersion => rfl
  | lvrFeature => rfl
  | svrFeature => rfl

theorem Keyword.probed_injective {k k' : Keyword} (h : k.probed = k'.probed) : k = k' := by
  have hdistinct : ∀ k ∈ all, ∀ k' ∈ all, k.probed = k'.probed → k = k' := by decide
  exact hdistinct k k.mem_all k' k'.mem_all h

theorem treats_iff_selects (r : Bytes) (k : Keyword) : Treats r k ↔ k.Selects r := by
  constructor
  · intro h
    have hprobes : probes.map (fun db => (processMessage db r []).1) = k.probed := by
      rw [← k.handle_probes r []]
      exact List.map_congr_left fun db _ => congrArg Prod.fst (h db [])
    simp only [processMessage_eq] at hprobes
    cases hs : selected r with
    | none =>
        rw [hs] at hprobes
        have hunknown : ∀ k ∈ Keyword.all, [-1, -1, -1] ≠ k.probed := by decide
        exact absurd hprobes (hunknown k k.mem_all)
    | some k' =>
        rw [hs] at hprobes
        have hsame := Keyword.probed_injective ((k'.handle_probes r []).symm.trans hprobes)
        rw [← hsame]
        exact (selected_eq_some_iff r k').mp hs
  · intro h db w
    rw [processMessage_eq, (selected_eq_some_iff r k).mpr h]

/-- A message is treated as a command exactly when it starts with its whole keyword, as
no two commands, and is unknown when it starts with none. -/
def ParsedExactly (r : Bytes) : Prop :=
  (∀ k, Treats r k ↔ StartsWith r k.text) ∧
    (∀ k k', Treats r k → Treats r k' → k = k') ∧
    ((∀ k : Keyword, ¬ StartsWith r k.text) →
      ∀ (db : XmlDatabase) (w : Bytes), processMessage db r w = (-1, w))

theorem Keyword.selects_of_startsWith {k : Keyword} {r : Bytes} (h : StartsWith r k.text) :
    k.Selects r :=
  (k.selects_iff r).mpr (((List.take_prefix k.compared k.text).map tolower).trans h)

/-- The other four lengths are those of the keywords. -/
theorem Keyword.startsWith_of_selects {k : Keyword} {r : Bytes} (hk : k ≠ supportSdks)
    (h : k.Selects r) : StartsWith r k.text := by
  have hwhole : ∀ k ∈ all, k ≠ supportSdks → k.text.take k.compared = k.text := by decide
  rwa [k.selects_iff, hwhole k k.mem_all hk] at h

/-- The parser accepts exactly its keywords on the messages that do not start with
`suppor`, and on those that go on to `support_sdks`. -/
theorem parser_exact (r : Bytes) :
    ParsedExactly r ↔ (StartsWith r (ascii "suppor") → StartsWith r (ascii "support_sdks")) := by
  have hsupport : Keyword.supportSdks.Selects r ↔ StartsWith r (ascii "suppor") :=
    Keyword.supportSdks.selects_iff r
  constructor
  · rintro ⟨hexact, -, -⟩ hprefix
    exact (hexact .supportSdks).mp ((treats_iff_selects r _).mpr (hsupport.mpr hprefix))
  · intro hwhole
    have hstarts (k : Keyword) (h : k.Selects r) : StartsWith r k.text := by
      by_cases hk : k = .supportSdks
      · subst hk
        exact hwhole (hsupport.mp h)
      · exact Keyword.startsWith_of_selects hk h
    refine ⟨fun k => ?_, fun k k' h h' => ?_, fun hnone db w => ?_⟩
    · rw [treats_iff_selects]
      exact ⟨hstarts k, Keyword.selects_of_startsWith⟩
    · rw [treats_iff_selects] at h h'
      exact Keyword.selects_unique h h'
    · rw [processMessage_eq, (selected_eq_none_iff r).mpr fun k h => hnone k (hstarts k h)]

theorem parser_exact_fails : ¬ ∀ r : Bytes, ParsedExactly r := by
  intro hall
  have htreats : Treats (ascii "support") .supportSdks := (treats_iff_selects _ _).mpr (by decide)
  exact absurd (((hall (ascii "support")).1 .supportSdks).mp htreats) (by decide)

end VRAdmin
