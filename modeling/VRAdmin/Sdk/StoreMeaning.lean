import VRAdmin.Sdk.XmlDatabase

/-! # What the store means

A run of `parser` calls is read as the history of the documents it accepted.
`storeOf` builds the store from such a history without a program: one entry for
each root name in order of first appearance, the version of the first document
of that name, and for each feature key the first item in document order. The
program's store is proved equal to it after every call, and lookups are then
lookups in the history.
-/

namespace VRAdmin

open Foundation

/-- One call of `parser`, with the files as they are at that moment. -/
structure ParserCall where
  xmlReadFile : CString → Option XmlDoc
  filepath : Option CString

/-- A call that finds a document with this root name, a version and no children. -/
def callOf (name version : String) : ParserCall :=
  ⟨fun _ => some ⟨some ⟨CString.lit name, some (CString.lit version), []⟩⟩, some default⟩

/-- An accepted document. -/
structure Document where
  name : CString
  version : CString
  children : List XmlNode
deriving DecidableEq

/-- The document of a call: there is none without a tree, a root or the root's
`Version`. -/
def ParserCall.document (call : ParserCall) : Option Document := do
  let filepath ← call.filepath
  let doc ← call.xmlReadFile filepath
  let root ← doc.root
  let version ← root.version
  pure ⟨root.name, version, root.children⟩

def ParserCall.exec (call : ParserCall) (db : XmlDatabase) : XmlDatabase × Int :=
  db.parser call.xmlReadFile call.filepath

/-- The store after a sequence of calls, from the constructor's empty vector. -/
def parseAll (calls : List ParserCall) : XmlDatabase :=
  calls.foldl (fun db call => (call.exec db).1) XmlDatabase.empty

def documents (calls : List ParserCall) : List Document := calls.filterMap (·.document)

/-- The version and the number of an `ExternalSDK` child that has both. -/
def XmlNode.item (node : XmlNode) : Option (CString × UInt64) :=
  if node.name = CString.lit "ExternalSDK" then do
    let version ← node.version
    let content ← node.content
    pure (version, XmlDatabase.featureWord content)
  else none

def Document.items (d : Document) : List (CString × UInt64) := d.children.filterMap (·.item)

/-- All items of the documents of one root name, in document order. -/
def features (type : CString) (ds : List Document) : List (CString × UInt64) :=
  (ds.filter fun d => d.name = type).flatMap (·.items)

def entryOf (ds : List Document) (type : CString) : VrSDK :=
  ⟨type, ((ds.find? fun d => d.name = type).map (·.version)).getD default,
    (features type ds).foldl insertNew []⟩

def storeOf (ds : List Document) : XmlDatabase :=
  ⟨((ds.map (·.name)).eraseDups).map (entryOf ds)⟩

/-! ## One call -/

/-- What `parser` does with a document it accepts. -/
def XmlDatabase.addDocument (db : XmlDatabase) (d : Document) : XmlDatabase :=
  match db.mData.findIdx? fun sdk => d.name = sdk.mType with
  | some sdk => ⟨db.mData.modify sdk (d.children.foldl XmlDatabase.addChild)⟩
  | none => ⟨db.mData ++ [d.children.foldl XmlDatabase.addChild (VrSDK.make d.name d.version)]⟩

theorem generateSDK_some (db : XmlDatabase) (type version : CString) :
    db.generateSDK (some type) (some version) =
      match db.mData.findIdx? fun sdk => type = sdk.mType with
      | some sdk => (db, some sdk)
      | none => (⟨db.mData ++ [VrSDK.make type version]⟩, some db.mData.length) := by
  have hp : (fun sdk : VrSDK => decide (strcmp type.bytes sdk.mType.bytes = 0)) =
      fun sdk => decide (type = sdk.mType) := by
    funext sdk
    simp [strcmp_bytes_eq_zero_iff]
  show (match db.mData.findIdx? fun sdk => decide (strcmp type.bytes sdk.mType.bytes = 0) with
    | some sdk => (db, some sdk)
    | none => (⟨db.mData ++ [VrSDK.make type version]⟩, some db.mData.length)) = _
  rw [hp]

private theorem modify_length_append {α : Type} (f : α → α) (xs : List α) (x : α) :
    (xs ++ [x]).modify xs.length f = xs ++ [f x] := by
  induction xs with
  | nil => rfl
  | cons y xs ih => simpa using ih

theorem parser_root (db : XmlDatabase) (name version : CString) (children : List XmlNode) :
    (match db.generateSDK (some name) (some version) with
      | (db, none) => (db, (-1 : Int))
      | (db, some sdk) => (⟨db.mData.modify sdk (children.foldl XmlDatabase.addChild)⟩, 0)) =
      (db.addDocument ⟨name, version, children⟩, 0) := by
  rw [generateSDK_some, XmlDatabase.addDocument]
  dsimp only
  cases db.mData.findIdx? fun sdk => name = sdk.mType with
  | some sdk => rfl
  | none =>
      -- the new entry is the last one, and the children go into it
      simp only [modify_length_append]

theorem exec_eq (call : ParserCall) (db : XmlDatabase) :
    call.exec db =
      match call.document with
      | none => (db, -1)
      | some d => (db.addDocument d, 0) := by
  unfold ParserCall.exec XmlDatabase.parser ParserCall.document
  cases call.filepath with
  | none => rfl
  | some filepath =>
      simp only [bind, Option.bind, pure]
      cases call.xmlReadFile filepath with
      | none => rfl
      | some doc =>
          dsimp only
          cases doc.root with
          | none => rfl
          | some root =>
              obtain ⟨name, version, children⟩ := root
              cases version with
              | none => rfl
              | some version => exact parser_root db name version children

/-! ## The store after a history -/

theorem foldl_addChild (children : List XmlNode) (sdk : VrSDK) :
    children.foldl XmlDatabase.addChild sdk =
      { sdk with mVFs := (children.filterMap (·.item)).foldl insertNew sdk.mVFs } := by
  induction children generalizing sdk with
  | nil => rfl
  | cons node children ih =>
      rw [List.foldl_cons, ih]
      obtain ⟨name, version, content⟩ := node
      unfold XmlDatabase.addChild
      dsimp only
      by_cases hn : name = CString.lit "ExternalSDK"
      · cases version with
        | none => simp [XmlNode.item, hn]
        | some version =>
            cases content with
            | none => simp [XmlNode.item, hn]
            | some content => simp [XmlNode.item, hn, VrSDK.addExternalSDKItem_state]
      · simp [XmlNode.item, hn]

theorem features_snoc (type : CString) (ds : List Document) (d : Document) :
    features type (ds ++ [d]) =
      if d.name = type then features type ds ++ d.items else features type ds := by
  unfold features
  rw [List.filter_append, List.flatMap_append]
  by_cases hd : d.name = type <;> simp [hd]

/-- A further document changes the entry of its own root name only. -/
theorem entryOf_snoc {ds : List Document} {type : CString} (hmem : type ∈ ds.map (·.name))
    (d : Document) :
    entryOf (ds ++ [d]) type =
      if type = d.name then d.children.foldl XmlDatabase.addChild (entryOf ds type)
      else entryOf ds type := by
  obtain ⟨first, hfirst, hname⟩ := List.mem_map.mp hmem
  obtain ⟨found, hfound⟩ : ∃ found, (ds.find? fun d => d.name = type) = some found :=
    Option.isSome_iff_exists.mp (List.find?_isSome.mpr ⟨first, hfirst, by simpa using hname⟩)
  rw [foldl_addChild]
  unfold entryOf
  rw [features_snoc, List.find?_append, hfound]
  by_cases ht : type = d.name
  · simp [ht, Document.items, List.foldl_append]
  · simp [ht, Ne.symm ht]

theorem entryOf_new {ds : List Document} {d : Document} (hnew : d.name ∉ ds.map (·.name)) :
    entryOf (ds ++ [d]) d.name =
      d.children.foldl XmlDatabase.addChild (VrSDK.make d.name d.version) := by
  have hfilter : ds.filter (fun e => e.name = d.name) = [] := by
    rw [List.filter_eq_nil_iff]
    intro e he
    simpa using fun h : e.name = d.name => hnew (List.mem_map.mpr ⟨e, he, h⟩)
  have hfind : ds.find? (fun e => e.name = d.name) = none := by
    rw [List.find?_eq_none]
    intro e he
    simpa using fun h : e.name = d.name => hnew (List.mem_map.mpr ⟨e, he, h⟩)
  rw [foldl_addChild]
  simp [entryOf, features, hfilter, hfind, VrSDK.make, Document.items]

theorem addDocument_storeOf (ds : List Document) (d : Document) :
    (storeOf ds).addDocument d = storeOf (ds ++ [d]) := by
  unfold XmlDatabase.addDocument storeOf
  rw [List.map_append, List.map_singleton, eraseDups_snoc, List.findIdx?_map]
  by_cases hmem : d.name ∈ (ds.map (·.name)).eraseDups
  · rw [if_pos hmem]
    have hsome : ((ds.map (·.name)).eraseDups.findIdx?
        ((fun sdk => decide (d.name = sdk.mType)) ∘ entryOf ds)).isSome = true := by
      rw [List.findIdx?_isSome, List.any_eq_true]
      exact ⟨d.name, hmem, by simp [entryOf]⟩
    obtain ⟨i, hi⟩ := Option.isSome_iff_exists.mp hsome
    rw [hi]
    dsimp only
    have hkey : ∀ type ∈ (ds.map (·.name)).eraseDups,
        ((fun sdk => decide (d.name = sdk.mType)) ∘ entryOf ds) type = true ↔ type = d.name := by
      intro type _
      simp [entryOf, eq_comm]
    rw [modify_map_findIdx? _ (nodup_eraseDups _) hkey hi]
    congr 1
    apply List.map_congr_left
    intro type htype
    rw [entryOf_snoc (List.mem_eraseDups.mp htype)]
    simp
  · rw [if_neg hmem]
    have hnone : (ds.map (·.name)).eraseDups.findIdx?
        ((fun sdk => decide (d.name = sdk.mType)) ∘ entryOf ds) = none := by
      rw [List.findIdx?_eq_none_iff]
      intro type htype
      exact decide_eq_false fun h : d.name = type => hmem (h ▸ htype)
    rw [hnone]
    dsimp only
    rw [List.map_append, List.map_singleton,
      entryOf_new (fun h => hmem (List.mem_eraseDups.mpr h))]
    congr 2
    apply List.map_congr_left
    intro type htype
    have hne : type ≠ d.name := fun h => hmem (h ▸ htype)
    rw [entryOf_snoc (List.mem_eraseDups.mp htype), if_neg hne]

theorem parseAll_snoc (calls : List ParserCall) (call : ParserCall) :
    parseAll (calls ++ [call]) = (call.exec (parseAll calls)).1 := by
  simp [parseAll]

theorem parseAll_eq_storeOf (calls : List ParserCall) :
    parseAll calls = storeOf (documents calls) := by
  induction calls using List.reverseRecOn with
  | nil => rfl
  | append_singleton calls call ih =>
      rw [parseAll_snoc, exec_eq, ih]
      unfold documents
      rw [List.filterMap_append]
      cases hd : call.document with
      | none => simp [hd]
      | some d =>
          rw [List.filterMap_cons_some hd, List.filterMap_nil]
          exact addDocument_storeOf (documents calls) d

/-! ## Lookups -/

theorem find?_of_refines {α : Type} {p q : α → Bool} {xs : List α} {x : α}
    (hx : xs.find? p = some x) (hq : q x = true) (hqp : ∀ y, q y = true → p y = true) :
    xs.find? q = some x := by
  obtain ⟨_, before, after, hxs, hbefore⟩ := List.find?_eq_some_iff_append.mp hx
  rw [List.find?_eq_some_iff_append]
  refine ⟨hq, before, after, hxs, ?_⟩
  intro y hy
  have hp := hbefore y hy
  cases hqy : q y with
  | false => rfl
  | true => simp [hqp y hqy] at hp

theorem entryOf_lookup (ds : List Document) (type key : CString) :
    (entryOf ds type).mVFs.lookup key = (features type ds).lookup key := by
  simp [entryOf, lookup_foldl_insertNew]

theorem deref_getSDK (db : XmlDatabase) (type : CString) :
    db.deref (db.getSDK type) = db.mData.find? fun sdk => type.EqIgnoreCase sdk.mType := by
  have hp : (fun sdk : VrSDK => decide (strcasecmp type.bytes sdk.mType.bytes = 0)) =
      fun sdk => decide (type.EqIgnoreCase sdk.mType) := by
    funext sdk
    simp [strcasecmp_bytes_eq_zero_iff]
  rw [XmlDatabase.getSDK, XmlDatabase.deref, hp, List.find?_eq_bind_findIdx?_getElem?]

/-- A lookup finds the entry of the earliest accepted document of that type. -/
theorem getSDK_storeOf (ds : List Document) (type : CString) :
    (storeOf ds).deref ((storeOf ds).getSDK type) =
      (ds.find? fun d => type.EqIgnoreCase d.name).map fun d => entryOf ds d.name := by
  rw [deref_getSDK, storeOf, List.find?_map, find?_eraseDups, List.find?_map, Option.map_map]
  rfl

theorem getSDK_eq_none_iff (db : XmlDatabase) (type : CString) :
    db.getSDK type = none ↔ db.deref (db.getSDK type) = none := by
  cases hi : db.getSDK type with
  | none => simp [XmlDatabase.deref]
  | some i =>
      obtain ⟨hlt, _⟩ := List.findIdx?_eq_some_iff_getElem.mp hi
      simp [XmlDatabase.deref, hlt]

theorem entryOf_of_earliest {ds : List Document} {type : CString} {d : Document}
    (hd : (ds.find? fun d => type.EqIgnoreCase d.name) = some d) :
    (entryOf ds d.name).mVersion = d.version := by
  have hmatch : type.EqIgnoreCase d.name := by simpa using List.find?_some hd
  have hexact : (ds.find? fun e => e.name = d.name) = some d := by
    apply find?_of_refines hd (by simp)
    intro e he
    simpa [show e.name = d.name by simpa using he] using hmatch
  simp [entryOf, hexact]

theorem getFeature_entryOf (ds : List Document) (type q : CString) :
    (entryOf ds type).getFeature (some q) = ((features type ds).lookup (q.upTo 46)).getD 0 := by
  rw [VrSDK.getFeature, entryOf_lookup]

/-- Each call answers -1 and changes nothing when the file has no document to
accept, and else 0; and after any sequence of calls the lookups are lookups in
the accepted documents: a type is absent exactly when no document carries it up
to case, the earliest such document gives type and version, and a feature is
the first item of its key among the documents of exactly that root name. -/
theorem store_lookup_exact (calls : List ParserCall) :
    (∀ (call : ParserCall) (db : XmlDatabase),
      (call.document = none → call.exec db = (db, -1)) ∧
      (call.document ≠ none → (call.exec db).2 = 0)) ∧
    ∀ type : CString,
      ((parseAll calls).getSDK type = none ↔
        ∀ d ∈ documents calls, ¬ type.EqIgnoreCase d.name) ∧
      ∀ d, ((documents calls).find? fun d => type.EqIgnoreCase d.name) = some d →
        ∃ sdk, (parseAll calls).deref ((parseAll calls).getSDK type) = some sdk ∧
          sdk.mType = d.name ∧ sdk.mVersion = d.version ∧
          ∀ q : CString, sdk.getFeature (some q) =
            ((features d.name (documents calls)).lookup (q.upTo 46)).getD 0 := by
  refine ⟨?_, ?_⟩
  · intro call db
    rw [exec_eq]
    cases call.document <;> simp
  · intro type
    rw [getSDK_eq_none_iff, parseAll_eq_storeOf, getSDK_storeOf]
    refine ⟨by simp [List.find?_eq_none], ?_⟩
    intro d hd
    refine ⟨entryOf (documents calls) d.name, by rw [hd]; rfl, rfl, entryOf_of_earliest hd, ?_⟩
    exact getFeature_entryOf (documents calls) d.name

end VRAdmin
