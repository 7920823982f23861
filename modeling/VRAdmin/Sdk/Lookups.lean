import VRAdmin.Sdk.StoreMeaning

/-! # What can be looked up again

Entries are made under a comparison that minds case and found under one that does
not; feature items are stored under their whole version and found under the part in
front of its first `'.'`. In both places what was stored can be out of reach.
-/

namespace VRAdmin

open Foundation

/-! ## Entries by their type -/

theorem eqIgnoreCase_equivalence : Equivalence CString.EqIgnoreCase :=
  ⟨fun _ => rfl, fun h => h.symm, fun h h' => h.trans h'⟩

theorem getSDK_eq (db : XmlDatabase) (type : CString) :
    db.getSDK type = (db.mData.map (·.mType)).findIdx? fun other => type.EqIgnoreCase other := by
  rw [List.findIdx?_map, XmlDatabase.getSDK]
  congr 1
  funext sdk
  exact decide_eq_decide.mpr (strcasecmp_bytes_eq_zero_iff type sdk.mType)

theorem storeOf_types (ds : List Document) :
    (storeOf ds).mData.map (·.mType) = (ds.map (·.name)).eraseDups := by
  rw [storeOf, List.map_map]
  exact List.map_id _

/-- Every entry is found by its own type exactly when no two accepted documents have
root names that differ in case only. -/
theorem entries_reachable (calls : List ParserCall) :
    (∀ i sdk, (parseAll calls).mData[i]? = some sdk →
        (parseAll calls).getSDK sdk.mType = some i) ↔
      ∀ d ∈ documents calls, ∀ e ∈ documents calls,
        d.name.EqIgnoreCase e.name → d.name = e.name := by
  have hkeys := findIdx?_self_iff eqIgnoreCase_equivalence
    (nodup_eraseDups ((documents calls).map (·.name)))
  rw [← storeOf_types, ← parseAll_eq_storeOf] at hkeys
  constructor
  · intro hself d hd e he hsame
    have hmem (d : Document) (hd : d ∈ documents calls) :
        d.name ∈ (parseAll calls).mData.map (·.mType) := by
      rw [parseAll_eq_storeOf, storeOf_types, List.mem_eraseDups]
      exact List.mem_map_of_mem hd
    refine hkeys.mp (fun i k hi => ?_) _ (hmem d hd) _ (hmem e he) hsame
    obtain ⟨sdk, hsdk, rfl⟩ := Option.map_eq_some_iff.mp ((List.getElem?_map ..).symm.trans hi)
    rw [← getSDK_eq]
    exact hself i sdk hsdk
  · intro hnames i sdk hsdk
    rw [getSDK_eq]
    refine hkeys.mpr (fun a ha b hb hab => ?_) i sdk.mType (by rw [List.getElem?_map, hsdk]; rfl)
    rw [parseAll_eq_storeOf, storeOf_types, List.mem_eraseDups] at ha hb
    obtain ⟨d, hd, rfl⟩ := List.mem_map.mp ha
    obtain ⟨e, he, rfl⟩ := List.mem_map.mp hb
    exact hnames d hd e he hab

theorem entries_reachable_fails :
    ¬ ∀ (calls : List ParserCall) (i : Nat) (sdk : VrSDK),
      (parseAll calls).mData[i]? = some sdk → (parseAll calls).getSDK sdk.mType = some i := by
  intro hall
  have hfound := hall [callOf "LVR" "1", callOf "lvr" "2"] 1
    (VrSDK.make (CString.lit "lvr") (CString.lit "2")) (by decide)
  exact absurd hfound (by decide)

/-! ## Items by their version -/

/-- Further items, null versions included. -/
def VrSDK.addItems (sdk : VrSDK) (items : List (Option CString × UInt64)) : VrSDK :=
  items.foldl (fun sdk item => (sdk.addExternalSDKItem item.1 item.2).1) sdk

/-- The items with a version. -/
def versioned (items : List (Option CString × UInt64)) : List (CString × UInt64) :=
  items.filterMap fun item => item.1.map fun v => (v, item.2)

theorem addItems_state (sdk : VrSDK) (items : List (Option CString × UInt64)) :
    sdk.addItems items = { sdk with mVFs := (versioned items).foldl insertNew sdk.mVFs } := by
  unfold VrSDK.addItems versioned
  induction items generalizing sdk with
  | nil => rfl
  | cons item items ih =>
      obtain ⟨v, f⟩ := item
      rw [List.foldl_cons, ih]
      cases v with
      | none => rfl
      | some v =>
          rw [VrSDK.addExternalSDKItem_state]
          rfl

theorem lookup_addItems (sdk : VrSDK) (items : List (Option CString × UInt64)) (key : CString) :
    (sdk.addItems items).mVFs.lookup key =
      (sdk.mVFs.lookup key).or ((versioned items).lookup key) := by
  rw [addItems_state]
  exact lookup_foldl_insertNew (versioned items) sdk.mVFs key

theorem addExternalSDKItem_accepted {sdk : VrSDK} {v : CString} {f : UInt64}
    (h : (sdk.addExternalSDKItem (some v) f).2 = 0) :
    sdk.mVFs.lookup v = none ∧
      (sdk.addExternalSDKItem (some v) f).1.mVFs = sdk.mVFs ++ [(v, f)] := by
  unfold VrSDK.addExternalSDKItem at h ⊢
  cases hv : sdk.mVFs.lookup v with
  | some g => simp [hv] at h
  | none => exact ⟨rfl, by simp [hv]⟩

theorem upTo_eq_self {c : UInt8} {s : CString} (h : c ∉ s.bytes) : s.upTo c = s := by
  apply CString.ext_bytes
  refine List.takeWhile_eq_self_iff.mpr fun b hb => ?_
  simpa using fun hbc : b = c => h (hbc ▸ hb)

theorem upTo_ne_self {c : UInt8} {s : CString} (h : c ∈ s.bytes) : s.upTo c ≠ s := by
  intro hself
  have hbytes : s.bytes.takeWhile (· ≠ c) = s.bytes := congrArg CString.bytes hself
  have hc := List.takeWhile_eq_self_iff.mp hbytes c h
  simp at hc

/-- An accepted item is found under its own version for good exactly when the version
has no `'.'`, or the same word was already stored under its part in front of it. -/
theorem item_found_again {sdk : VrSDK} {v : CString} {f : UInt64}
    (haccepted : (sdk.addExternalSDKItem (some v) f).2 = 0) :
    (∀ later : List (Option CString × UInt64),
        ((sdk.addExternalSDKItem (some v) f).1.addItems later).getFeature (some v) = f) ↔
      (46 : UInt8) ∉ v.bytes ∨ sdk.mVFs.lookup (v.upTo 46) = some f := by
  obtain ⟨hnew, hstate⟩ := addExternalSDKItem_accepted haccepted
  have hfeature (later : List (Option CString × UInt64)) :
      ((sdk.addExternalSDKItem (some v) f).1.addItems later).getFeature (some v) =
        (((sdk.mVFs.lookup (v.upTo 46)).or ([(v, f)].lookup (v.upTo 46))).or
          ((versioned later).lookup (v.upTo 46))).getD 0 := by
    rw [VrSDK.getFeature, lookup_addItems, hstate, List.lookup_append]
  by_cases hdot : (46 : UInt8) ∈ v.bytes
  · have hown : [(v, f)].lookup (v.upTo 46) = none := by
      rw [List.lookup_cons, beq_false_of_ne (upTo_ne_self hdot)]
      rfl
    simp only [hfeature, hown, Option.or_none, hdot, not_true, false_or]
    cases hold : sdk.mVFs.lookup (v.upTo 46) with
    | some g =>
        simp only [Option.some_or, Option.getD_some, forall_const, Option.some.injEq]
    | none =>
        -- a later item under the shortened version gives any word
        constructor
        · intro hall
          have hother := hall [(some (v.upTo 46), f + 1)]
          simp [versioned] at hother
        · intro h
          cases h
  · have hcut := upTo_eq_self hdot
    simp [hfeature, hcut, hnew, hdot]

/-- Later items, also one under the same version and one without a version, do not hide it. -/
theorem item_found_again_plain :
    let first := (VrSDK.make (CString.lit "LVR") (CString.lit "1")).addExternalSDKItem
      (some (CString.lit "3")) 7
    let later := [(some (CString.lit "3"), 9), (some (CString.lit "4.1"), 8), (none, 5)]
    (first.1.addItems later).getFeature (some (CString.lit "3")) = 7 := by
  intro first later
  have haccepted : first.2 = 0 := by decide
  exact (item_found_again haccepted).mpr (Or.inl (by decide)) later

/-- The version `1.2` is stored whole and asked for as `1`. -/
theorem item_found_again_fails :
    ¬ ∀ (sdk : VrSDK) (v : CString) (f : UInt64), (sdk.addExternalSDKItem (some v) f).2 = 0 →
      ∀ later : List (Option CString × UInt64),
        ((sdk.addExternalSDKItem (some v) f).1.addItems later).getFeature (some v) = f := by
  intro hall
  have hfound := hall (VrSDK.make (CString.lit "LVR") (CString.lit "1")) (CString.lit "1.2") 7
    (by decide) []
  exact absurd hfound (by decide)

end VRAdmin
