import VRAdmin.Native.VRNativeService
import VRAdmin.Sdk.StoreMeaning
import VRAdmin.Server.Replies

/-! # The version of an SDK as a property

The constructor of `VrSDK` also publishes the version, as a system property that is
named after the type. Spellings that differ in case share the property: it is
set by each of their entries and tells the last one, while the socket server looks
an entry up and tells the first.
-/

namespace VRAdmin

open Foundation

section Publishing

variable {ι β : Type}

namespace VrSDK

/-- `prop`, as the constructor prints it from the lowered type. -/
def prop (type : CString) : Bytes :=
  snprintf 127 (ascii "vr." ++ type.bytes.map tolower ++ ascii ".version")

/-- The constructor; a status below 0 is logged and nothing else. -/
def construct (kernel : Kernel ι β) (s : VRNativeService ι β) (type version : CString) :
    VRNativeService ι β × VrSDK :=
  let status := kernel.propertySet s (prop type) version.bytes
  (if status < 0 then s else s.setProperties (prop type) version.bytes, make type version)

end VrSDK

namespace XmlDatabase

/-- `_GenerateSDK` on the system that the constructor acts on. -/
def generateSDKIn (kernel : Kernel ι β) (s : VRNativeService ι β) (db : XmlDatabase)
    (type version : Option CString) : VRNativeService ι β × XmlDatabase × Option Nat :=
  match type, version with
  | some type, some version =>
      match db.mData.findIdx? fun sdk => strcmp type.bytes sdk.mType.bytes = 0 with
      | some sdk => (s, db, some sdk)
      | none =>
          let (s, sdk) := VrSDK.construct kernel s type version
          (s, ⟨db.mData ++ [sdk]⟩, some db.mData.length)
  | _, _ => (s, db, none)

def parserIn (kernel : Kernel ι β) (s : VRNativeService ι β) (db : XmlDatabase)
    (xmlReadFile : CString → Option XmlDoc) (filepath : Option CString) :
    VRNativeService ι β × XmlDatabase × Int :=
  match filepath with
  | none => (s, db, -1)
  | some filepath =>
      match xmlReadFile filepath with
      | none => (s, db, -1)
      | some doc =>
          match doc.root with
          | none => (s, db, -1)
          | some curNode =>
              match db.generateSDKIn kernel s (some curNode.name) curNode.version with
              | (s, db, none) => (s, db, -1)
              | (s, db, some sdk) =>
                  (s, ⟨db.mData.modify sdk (curNode.children.foldl addChild)⟩, 0)

end XmlDatabase

/-- A sequence of calls from an empty store. -/
def parseAllIn (kernel : Kernel ι β) (s : VRNativeService ι β) (calls : List ParserCall) :
    VRNativeService ι β × XmlDatabase :=
  calls.foldl (fun acc call =>
    let r := acc.2.parserIn kernel acc.1 call.xmlReadFile call.filepath
    (r.1, r.2.1)) (s, XmlDatabase.empty)

/-- What the constructors of these entries have done. -/
def published (kernel : Kernel ι β) (s : VRNativeService ι β) (sdks : List VrSDK) :
    VRNativeService ι β :=
  sdks.foldl (fun s sdk => (VrSDK.construct kernel s sdk.mType sdk.mVersion).1) s

variable {kernel : Kernel ι β}

theorem published_snoc (s : VRNativeService ι β) (sdks : List VrSDK) (sdk : VrSDK) :
    published kernel s (sdks ++ [sdk]) =
      (VrSDK.construct kernel (published kernel s sdks) sdk.mType sdk.mVersion).1 := by
  simp [published]

theorem published_modify (s : VRNativeService ι β) (sdks : List VrSDK) (i : Nat)
    (children : List XmlNode) :
    published kernel s (sdks.modify i (children.foldl XmlDatabase.addChild)) =
      published kernel s sdks := by
  induction sdks generalizing s i with
  | nil => rw [List.modify_nil]
  | cons sdk sdks ih =>
      cases i with
      | zero =>
          rw [List.modify_zero_cons, foldl_addChild]
          rfl
      | succ i => exact ih (VrSDK.construct kernel s sdk.mType sdk.mVersion).1 i

theorem generateSDKIn_eq (s : VRNativeService ι β) (db : XmlDatabase)
    (type version : Option CString) :
    db.generateSDKIn kernel (published kernel s db.mData) type version =
      (published kernel s (db.generateSDK type version).1.mData, db.generateSDK type version) := by
  unfold XmlDatabase.generateSDKIn XmlDatabase.generateSDK
  cases type with
  | none => rfl
  | some type =>
      cases version with
      | none => rfl
      | some version =>
          dsimp only
          cases db.mData.findIdx? fun sdk => strcmp type.bytes sdk.mType.bytes = 0 with
          | some sdk => rfl
          | none =>
              dsimp only
              rw [published_snoc]
              rfl

theorem parserIn_eq (s : VRNativeService ι β) (db : XmlDatabase)
    (xmlReadFile : CString → Option XmlDoc) (filepath : Option CString) :
    db.parserIn kernel (published kernel s db.mData) xmlReadFile filepath =
      (published kernel s (db.parser xmlReadFile filepath).1.mData,
        db.parser xmlReadFile filepath) := by
  unfold XmlDatabase.parserIn XmlDatabase.parser
  cases filepath with
  | none => rfl
  | some filepath =>
      dsimp only
      cases xmlReadFile filepath with
      | none => rfl
      | some doc =>
          dsimp only
          cases doc.root with
          | none => rfl
          | some curNode =>
              dsimp only
              rw [generateSDKIn_eq]
              obtain ⟨db', sdk⟩ := db.generateSDK (some curNode.name) curNode.version
              cases sdk with
              | none => rfl
              | some sdk =>
                  dsimp only
                  rw [published_modify]

theorem parseAllIn_eq (s : VRNativeService ι β) (calls : List ParserCall) :
    parseAllIn kernel s calls = (published kernel s (parseAll calls).mData, parseAll calls) := by
  induction calls using List.reverseRecOn with
  | nil => rfl
  | append_singleton calls call ih =>
      rw [parseAll_snoc, parseAllIn, List.foldl_append, List.foldl_cons, List.foldl_nil]
      rw [show calls.foldl _ _ = _ from ih, parserIn_eq]
      rfl

/-! ## The value of a property -/

def PROP_NAME_MAX : Nat := 32

/-- `property_set` takes a name and a value for what they are, and no name of
`PROP_NAME_MAX` bytes. -/
structure PropertyRules (kernel : Kernel ι β) (accepts : Bytes → Bytes → Bool) : Prop where
  decides : ∀ s name value, kernel.propertySet s name value < 0 ↔ accepts name value = false
  short : ∀ name value, accepts name value = true → name.length < PROP_NAME_MAX

/-- The entry sets the property. -/
def VrSDK.Sets (accepts : Bytes → Bytes → Bool) (name : Bytes) (sdk : VrSDK) : Bool :=
  prop sdk.mType = name && accepts name sdk.mVersion.bytes

variable {accepts : Bytes → Bytes → Bool}

theorem construct_properties (rules : PropertyRules kernel accepts) (s : VRNativeService ι β)
    (sdk : VrSDK) (name : Bytes) :
    (VrSDK.construct kernel s sdk.mType sdk.mVersion).1.properties name =
      if sdk.Sets accepts name then sdk.mVersion.bytes else s.properties name := by
  have hdecides := rules.decides s (VrSDK.prop sdk.mType) sdk.mVersion.bytes
  simp only [VrSDK.construct]
  cases haccepts : accepts (VrSDK.prop sdk.mType) sdk.mVersion.bytes with
  | false =>
      rw [if_pos (hdecides.mpr haccepts), if_neg]
      rintro hsets
      simp only [VrSDK.Sets, Bool.and_eq_true, decide_eq_true_eq] at hsets
      rw [hsets.1, hsets.2] at haccepts
      exact nomatch haccepts
  | true =>
      rw [if_neg fun herror => by rw [hdecides.mp herror] at haccepts; exact nomatch haccepts]
      by_cases hname : VrSDK.prop sdk.mType = name
      · subst hname
        simp [VRNativeService.setProperties, VrSDK.Sets, haccepts]
      · simp [VRNativeService.setProperties, VrSDK.Sets, hname, Ne.symm hname]

theorem published_properties (rules : PropertyRules kernel accepts) (s : VRNativeService ι β)
    (sdks : List VrSDK) (name : Bytes) :
    (published kernel s sdks).properties name =
      (((sdks.filter (VrSDK.Sets accepts name)).getLast?).map fun sdk =>
        sdk.mVersion.bytes).getD (s.properties name) := by
  induction sdks using List.reverseRecOn with
  | nil => rfl
  | append_singleton sdks sdk ih =>
      rw [published_snoc, construct_properties rules, ih, List.filter_append]
      by_cases hsets : sdk.Sets accepts name = true
      · simp [hsets]
      · simp [hsets]

end Publishing

/-! ## Spellings of a type -/

theorem prop_of_eqIgnoreCase {a b : CString} (h : a.EqIgnoreCase b) :
    VrSDK.prop a = VrSDK.prop b := by
  have hlower : a.bytes.map tolower = b.bytes.map tolower := h
  rw [VrSDK.prop, VrSDK.prop, hlower]

/-- A property whose name is not cut off belongs to one type up to case. -/
theorem eqIgnoreCase_of_prop {a b : CString} (h : VrSDK.prop a = VrSDK.prop b)
    (hshort : (VrSDK.prop a).length < PROP_NAME_MAX) : a.EqIgnoreCase b := by
  have hwhole (c : CString) (hc : (VrSDK.prop c).length < PROP_NAME_MAX) :
      VrSDK.prop c = ascii "vr." ++ c.bytes.map tolower ++ ascii ".version" := by
    apply List.take_of_length_le
    simp only [VrSDK.prop, snprintf, List.length_take, PROP_NAME_MAX] at hc
    omega
  have hshort' : (VrSDK.prop b).length < PROP_NAME_MAX := by
    rw [← h]
    exact hshort
  rw [hwhole a hshort, hwhole b hshort'] at h
  exact List.append_cancel_left (List.append_cancel_right h)

/-- The spellings of a type among the root names, in order of first appearance. -/
def spellings (ds : List Document) (type : CString) : List CString :=
  ((ds.map (·.name)).eraseDups).filter fun name => type.EqIgnoreCase name

/-- The version that a root name first came with. -/
def versionOf (ds : List Document) (name : CString) : CString := (entryOf ds name).mVersion

section Spelled

variable {ι β : Type} {kernel : Kernel ι β} {accepts : Bytes → Bytes → Bool}

/-- The spellings that `property_set` accepts the version of. -/
def acceptedSpellings (accepts : Bytes → Bytes → Bool) (ds : List Document) (type : CString) :
    List CString :=
  (spellings ds type).filter fun name => accepts (VrSDK.prop type) (versionOf ds name).bytes

theorem filter_sets (rules : PropertyRules kernel accepts) (ds : List Document) (type : CString) :
    (storeOf ds).mData.filter (VrSDK.Sets accepts (VrSDK.prop type)) =
      (acceptedSpellings accepts ds type).map (entryOf ds) := by
  rw [storeOf, acceptedSpellings, spellings, List.filter_map, List.filter_filter]
  congr 1
  apply List.filter_congr
  intro name _
  show (VrSDK.prop name = VrSDK.prop type && accepts (VrSDK.prop type) (versionOf ds name).bytes) =
    (accepts (VrSDK.prop type) (versionOf ds name).bytes && decide (type.EqIgnoreCase name))
  cases haccepts : accepts (VrSDK.prop type) (versionOf ds name).bytes with
  | false => simp
  | true =>
      have hiff : VrSDK.prop name = VrSDK.prop type ↔ type.EqIgnoreCase name :=
        ⟨fun heq => eqIgnoreCase_of_prop heq.symm (rules.short _ _ haccepts),
          fun heq => (prop_of_eqIgnoreCase heq).symm⟩
      simp [hiff]

theorem versionText_spellings (calls : List ParserCall) (type : CString) :
    versionText (parseAll calls) type =
      ((spellings (documents calls) type).head?).map fun name =>
        (versionOf (documents calls) name).bytes := by
  rw [versionText, parseAll_eq_storeOf, getSDK_storeOf, spellings, List.head?_filter,
    find?_eraseDups, List.find?_map, Option.map_map, Option.map_map]
  rfl

/-- The two ways to ask for a version, after any documents that spell a type in any
number of ways: the property tells the version of the last spelling of which
`property_set` accepts the version, and the socket server that of the first spelling.
The store is that of the calls alone, and no other property is touched. -/
theorem version_two_ways (rules : PropertyRules kernel accepts) (s : VRNativeService ι β)
    (calls : List ParserCall) :
    let r := parseAllIn kernel s calls
    let ds := documents calls
    r.2 = parseAll calls ∧
    (∀ key, (∀ d ∈ ds, VrSDK.prop d.name ≠ key) → r.1.properties key = s.properties key) ∧
    ∀ type,
      r.1.properties (VrSDK.prop type) =
        (((acceptedSpellings accepts ds type).getLast?).map fun name =>
          (versionOf ds name).bytes).getD (s.properties (VrSDK.prop type)) ∧
      versionText r.2 type =
        ((spellings ds type).head?).map fun name => (versionOf ds name).bytes := by
  intro r ds
  have hr : r = (published kernel s (storeOf ds).mData, parseAll calls) := by
    rw [← parseAll_eq_storeOf]
    exact parseAllIn_eq s calls
  rw [hr]
  refine ⟨rfl, ?_, ?_⟩
  · intro key hkey
    have hnone : (storeOf ds).mData.filter (VrSDK.Sets accepts key) = [] := by
      rw [List.filter_eq_nil_iff]
      intro sdk hsdk
      obtain ⟨name, hname, rfl⟩ := List.mem_map.mp hsdk
      obtain ⟨d, hd, rfl⟩ := List.mem_map.mp (List.mem_eraseDups.mp hname)
      have hne : VrSDK.prop (entryOf ds d.name).mType ≠ key := hkey d hd
      simp [VrSDK.Sets, hne]
    show (published kernel s (storeOf ds).mData).properties key = s.properties key
    rw [published_properties rules, hnone]
    rfl
  · intro type
    refine ⟨?_, versionText_spellings calls type⟩
    show (published kernel s (storeOf ds).mData).properties (VrSDK.prop type) = _
    rw [published_properties rules, filter_sets rules ds type, List.getLast?_map,
      Option.map_map]
    rfl

end Spelled

/-- Names and values as long as the property service takes them. -/
def fitsProperty (name value : Bytes) : Bool :=
  decide (name.length < PROP_NAME_MAX) && decide (value.length < 92)

def fittingKernel : Kernel Unit Unit where
  node _ _ := ⟨false, none, []⟩
  popen s _ := (s, none)
  propertySet _ name value := if fitsProperty name value then 0 else -1
  schedSetscheduler _ _ _ _ := (0, 0)

theorem fittingKernel_rules : PropertyRules fittingKernel fitsProperty where
  decides s name value := by
    show (if fitsProperty name value then (0 : Int32) else -1) < 0 ↔ _
    cases fitsProperty name value <;> decide
  short name value h := by
    simp only [fitsProperty, Bool.and_eq_true, decide_eq_true_eq] at h
    exact h.1

def noFiles : VRNativeService Unit Unit :=
  ⟨⟨fun _ => none, fun _ => [], fun _ _ => id⟩, fun _ => [], none⟩

/-- Three documents with the same type in three spellings, the last with a version that
is too long: the property has the version of the second and the socket server finds that
of the first. -/
theorem version_two_ways_spelled :
    let calls := [callOf "LVR" "1", callOf "lvr" "2",
      callOf "Lvr" (String.ofList (List.replicate 92 '9'))]
    let r := parseAllIn fittingKernel noFiles calls
    r.1.properties (ascii "vr.lvr.version") = ascii "2" ∧
      versionText r.2 (CString.lit "lvr") = some (ascii "1") := by
  intro calls r
  have hways := (version_two_ways fittingKernel_rules noFiles calls).2.2 (CString.lit "lvr")
  exact ⟨hways.1.trans (by decide +kernel), hways.2.trans (by decide +kernel)⟩

end VRAdmin
