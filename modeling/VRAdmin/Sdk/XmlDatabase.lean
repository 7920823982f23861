import VRAdmin.Sdk.VrSDK

/-! # The SDK store

`XmlDatabase` fills a vector of SDK entries from XML documents and answers
lookups on it. A `VrSDK*` into the vector is the index of its entry: entries are
never removed or moved. The XML library is seen through the three things
`parser` asks of it: a node's name, its `Version` attribute and its content.
-/

namespace VRAdmin

open Foundation

/-- A child of the root: `xmlGetProp` and `xmlNodeGetContent` can be null. -/
structure XmlNode where
  name : CString
  version : Option CString
  content : Option CString
deriving DecidableEq

structure XmlRoot where
  name : CString
  version : Option CString
  children : List XmlNode
deriving DecidableEq

/-- The tree `xmlReadFile` returns; a recovered document can lack a root. -/
structure XmlDoc where
  root : Option XmlRoot
deriving DecidableEq

structure XmlDatabase where
  mData : List VrSDK
deriving DecidableEq

namespace XmlDatabase

def empty : XmlDatabase := ⟨[]⟩

def getSDKSCount (db : XmlDatabase) : Nat := db.mData.length

/-- The types in vector order, joined by `'^'`. -/
def getAllSDKTypes (db : XmlDatabase) : Bytes :=
  List.intercalate (ascii "^") (db.mData.map (·.mType.bytes))

def getSDK (db : XmlDatabase) (type : CString) : Option Nat :=
  db.mData.findIdx? fun sdk => strcasecmp type.bytes sdk.mType.bytes = 0

/-- What a `VrSDK*` points to. -/
def deref (db : XmlDatabase) (sdk : Option Nat) : Option VrSDK := sdk.bind (db.mData[·]?)

/-- `_GenerateSDK`: the entry of exactly this type, made when it is missing. -/
def generateSDK (db : XmlDatabase) (type version : Option CString) : XmlDatabase × Option Nat :=
  match type, version with
  | some type, some version =>
      match db.mData.findIdx? fun sdk => strcmp type.bytes sdk.mType.bytes = 0 with
      | some sdk => (db, some sdk)
      | none => (⟨db.mData ++ [VrSDK.make type version]⟩, some db.mData.length)
  | _, _ => (db, none)

/-- The cast of `atoll`'s result to `uint64_t`. -/
def featureWord (val : CString) : UInt64 := UInt64.ofInt (atoll val)

/-- One turn of the loop over the root's children. -/
def addChild (sdk : VrSDK) (curNode : XmlNode) : VrSDK :=
  if curNode.name = CString.lit "ExternalSDK" then
    match curNode.version, curNode.content with
    | some pro, some val => (sdk.addExternalSDKItem (some pro) (featureWord val)).1
    | _, _ => sdk
  else sdk

def parser (db : XmlDatabase) (xmlReadFile : CString → Option XmlDoc)
    (filepath : Option CString) : XmlDatabase × Int :=
  match filepath with
  | none => (db, -1)
  | some filepath =>
      match xmlReadFile filepath with
      | none => (db, -1)
      | some doc =>
          match doc.root with
          | none => (db, -1)
          | some curNode =>
              match db.generateSDK (some curNode.name) curNode.version with
              | (db, none) => (db, -1)
              | (db, some sdk) => (⟨db.mData.modify sdk (curNode.children.foldl addChild)⟩, 0)

end XmlDatabase

end VRAdmin
