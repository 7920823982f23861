import VRAdmin.Foundation.Ownership
import VRAdmin.Sdk.StoreMeaning

/-! # The memory of the parser

`parser` with the blocks that it allocates and frees: the tree of a document, the
strings that `xmlGetProp` and `xmlNodeGetContent` return, and the entries. No block is
used or freed after it was freed; the strings of the items are freed, and the
`Version` string of the root, which each accepted document has, never is.
-/

namespace VRAdmin

open Foundation

inductive BlockUse
  | reads
  | writes
deriving DecidableEq

/-- The store with the blocks of its entries, and the log of all blocks. -/
structure ParserHeap (κ : Type) where
  db : XmlDatabase
  mData : List κ
  log : List (NameEvent κ BlockUse)

/-- An allocator may look at all that has happened to the blocks. -/
abbrev Malloc (κ : Type) := List (NameEvent κ BlockUse) → κ

section Model

variable {κ : Type}

/-- The allocator hands out no block that is in use. -/
def Allocates [DecidableEq κ] (malloc : Malloc κ) : Prop := ∀ log, malloc log ∉ openNames (lives log)

namespace ParserHeap

def empty : ParserHeap κ := ⟨XmlDatabase.empty, [], []⟩

def alloc (malloc : Malloc κ) (h : ParserHeap κ) : ParserHeap κ × κ :=
  let block := malloc h.log
  ({ h with log := h.log ++ [.opens block] }, block)

def reads (h : ParserHeap κ) (blocks : List κ) : ParserHeap κ :=
  { h with log := h.log ++ blocks.map (.acts · .reads) }

def writes (h : ParserHeap κ) (block : κ) : ParserHeap κ :=
  { h with log := h.log ++ [.acts block .writes] }

def free (h : ParserHeap κ) (block : κ) : ParserHeap κ :=
  { h with log := h.log ++ [.closes block] }

/-- `xmlGetProp` and `xmlNodeGetContent`: a copy of the text, or null. -/
def copyText (malloc : Malloc κ) (h : ParserHeap κ) (doc : κ) (text : Option CString) :
    ParserHeap κ × Option (κ × CString) :=
  match text with
  | none => (h.reads [doc], none)
  | some text =>
      let (h, block) := (h.reads [doc]).alloc malloc
      (h, some (block, text))

/-- `if (pro) xmlFree(pro)`. -/
def freeText (h : ParserHeap κ) (text : Option (κ × CString)) : ParserHeap κ :=
  match text with
  | none => h
  | some (block, _) => h.free block

/-- A `VrSDK*` is the block and the place of an entry; `type` lies in the document. -/
def generateSDK (malloc : Malloc κ) (h : ParserHeap κ) (doc : κ) (type : CString)
    (version : Option (κ × CString)) : ParserHeap κ × Option (κ × Nat) :=
  match version with
  | none => (h, none)
  | some (block, version) =>
      match h.db.mData.findIdx? fun sdk => strcmp type.bytes sdk.mType.bytes = 0 with
      | some sdk =>
          let h := h.reads (doc :: h.mData.take (sdk + 1))
          (h, (h.mData[sdk]?).map fun block => (block, sdk))
      | none =>
          let (h, entry) := (h.reads (doc :: h.mData)).alloc malloc
          let h := h.reads [doc, block]
          ({ h with db := ⟨h.db.mData ++ [VrSDK.make type version]⟩, mData := h.mData ++ [entry] },
            some (entry, h.db.mData.length))

/-- `if (pro && val)`: both texts are read and the entry is changed. -/
def addItem (h : ParserHeap κ) (sdk : κ × Nat) (pro val : Option (κ × CString)) : ParserHeap κ :=
  match pro, val with
  | some (proBlock, pro), some (valBlock, val) =>
      let h := (h.reads [valBlock, proBlock, sdk.1]).writes sdk.1
      { h with
        db := ⟨h.db.mData.modify sdk.2 fun entry =>
          (entry.addExternalSDKItem (some pro) (XmlDatabase.featureWord val)).1⟩ }
  | _, _ => h

/-- One turn of the loop over the root's children. -/
def addChild (malloc : Malloc κ) (doc : κ) (sdk : κ × Nat) (h : ParserHeap κ)
    (curNode : XmlNode) : ParserHeap κ :=
  let h := h.reads [doc]
  if curNode.name = CString.lit "ExternalSDK" then
    let (h, pro) := h.copyText malloc doc curNode.version
    let (h, val) := h.copyText malloc doc curNode.content
    (((h.addItem sdk pro val).freeText pro).freeText val).reads [doc]
  else h.reads [doc]

def parser (malloc : Malloc κ) (h : ParserHeap κ) (xmlReadFile : CString → Option XmlDoc)
    (filepath : Option CString) : ParserHeap κ × Int :=
  match filepath with
  | none => (h, -1)
  | some filepath =>
      match xmlReadFile filepath with
      | none => (h, -1)
      | some tree =>
          let (h, doc) := h.alloc malloc
          match tree.root with
          | none => (h.free doc, -1)
          | some curNode =>
              let (h, version) := h.copyText malloc doc curNode.version
              match h.generateSDK malloc doc curNode.name version with
              | (h, none) => (h.free doc, -1)
              | (h, some sdk) =>
                  let h := h.reads [doc]
                  ((curNode.children.foldl (addChild malloc doc sdk) h).free doc, 0)

/-- `~XmlDatabase`. -/
def destroy (h : ParserHeap κ) : ParserHeap κ :=
  { db := XmlDatabase.empty, mData := [], log := h.log ++ h.mData.map .closes }

end ParserHeap

def ParserCall.onHeap (malloc : Malloc κ) (call : ParserCall) (h : ParserHeap κ) :
    ParserHeap κ × Int :=
  h.parser malloc call.xmlReadFile call.filepath

/-- A sequence of calls from the constructor's empty vector. -/
def parseAllOnHeap (malloc : Malloc κ) (calls : List ParserCall) : ParserHeap κ :=
  calls.foldl (fun h call => (call.onHeap malloc h).1) ParserHeap.empty

/-! ## The store without memory -/

theorem parseAllOnHeap_snoc (malloc : Malloc κ) (calls : List ParserCall) (call : ParserCall) :
    parseAllOnHeap malloc (calls ++ [call]) =
      (call.onHeap malloc (parseAllOnHeap malloc calls)).1 := by
  simp [parseAllOnHeap]

namespace ParserHeap

theorem copyText_text (malloc : Malloc κ) (h : ParserHeap κ) (doc : κ) (text : Option CString) :
    (h.copyText malloc doc text).2.map Prod.snd = text := by
  cases text <;> rfl

theorem copyText_store (malloc : Malloc κ) (h : ParserHeap κ) (doc : κ) (text : Option CString) :
    (h.copyText malloc doc text).1.db = h.db ∧
      (h.copyText malloc doc text).1.mData = h.mData := by
  cases text <;> exact ⟨rfl, rfl⟩

theorem freeText_store (h : ParserHeap κ) (text : Option (κ × CString)) :
    (h.freeText text).db = h.db ∧ (h.freeText text).mData = h.mData := by
  cases text <;> exact ⟨rfl, rfl⟩

/-! ## The children of a root -/

theorem addItem_store (h : ParserHeap κ) (sdk : κ × Nat) (pro val : Option (κ × CString)) :
    (h.addItem sdk pro val).db =
        ⟨h.db.mData.modify sdk.2 fun entry =>
          match pro.map Prod.snd, val.map Prod.snd with
          | some pro, some val =>
              (entry.addExternalSDKItem (some pro) (XmlDatabase.featureWord val)).1
          | _, _ => entry⟩ ∧
      (h.addItem sdk pro val).mData = h.mData := by
  have hsame : (⟨h.db.mData.modify sdk.2 fun entry => entry⟩ : XmlDatabase) = h.db :=
    congrArg XmlDatabase.mk (List.modify_id sdk.2 h.db.mData)
  cases pro with
  | none => exact ⟨hsame.symm, rfl⟩
  | some pro =>
      cases val with
      | none => exact ⟨hsame.symm, rfl⟩
      | some val => exact ⟨rfl, rfl⟩

theorem addChild_store (malloc : Malloc κ) (h : ParserHeap κ) (doc : κ) (sdk : κ × Nat)
    (curNode : XmlNode) :
    (h.addChild malloc doc sdk curNode).db =
        ⟨h.db.mData.modify sdk.2 fun entry => XmlDatabase.addChild entry curNode⟩ ∧
      (h.addChild malloc doc sdk curNode).mData = h.mData := by
  unfold addChild XmlDatabase.addChild
  dsimp only
  by_cases hname : curNode.name = CString.lit "ExternalSDK"
  · simp only [if_pos hname]
    have hpro := copyText_store malloc (h.reads [doc]) doc curNode.version
    have hproText := copyText_text malloc (h.reads [doc]) doc curNode.version
    generalize (h.reads [doc]).copyText malloc doc curNode.version = copied at hpro hproText ⊢
    have hval := copyText_store malloc copied.1 doc curNode.content
    have hvalText := copyText_text malloc copied.1 doc curNode.content
    generalize copied.1.copyText malloc doc curNode.content = copied' at hval hvalText ⊢
    obtain ⟨hdb, hdata⟩ := addItem_store copied'.1 sdk copied.2 copied'.2
    rw [hproText, hvalText, hval.1, hpro.1] at hdb
    rw [hval.2, hpro.2] at hdata
    have hfreed := freeText_store (copied'.1.addItem sdk copied.2 copied'.2) copied.2
    have hfreed' := freeText_store ((copied'.1.addItem sdk copied.2 copied'.2).freeText copied.2)
      copied'.2
    exact ⟨hfreed'.1.trans (hfreed.1.trans hdb), hfreed'.2.trans (hfreed.2.trans hdata)⟩
  · simp only [if_neg hname]
    exact ⟨(congrArg XmlDatabase.mk (List.modify_id sdk.2 h.db.mData)).symm, rfl⟩

theorem children_store (malloc : Malloc κ) (doc : κ) (sdk : κ × Nat) (children : List XmlNode)
    (h : ParserHeap κ) :
    (children.foldl (addChild malloc doc sdk) h).db =
        ⟨h.db.mData.modify sdk.2 (children.foldl XmlDatabase.addChild)⟩ ∧
      (children.foldl (addChild malloc doc sdk) h).mData = h.mData := by
  induction children generalizing h with
  | nil => exact ⟨(congrArg XmlDatabase.mk (List.modify_id sdk.2 h.db.mData)).symm, rfl⟩
  | cons curNode children ih =>
      obtain ⟨hdb, hdata⟩ := addChild_store malloc h doc sdk curNode
      obtain ⟨ihdb, ihdata⟩ := ih (h.addChild malloc doc sdk curNode)
      rw [hdb, List.modify_modify_eq] at ihdb
      exact ⟨ihdb, ihdata.trans hdata⟩

/-! ## The entry of a root -/

theorem generateSDK_store (malloc : Malloc κ) (h : ParserHeap κ) (doc : κ) (type : CString)
    (version : Option (κ × CString)) (hlength : h.mData.length = h.db.mData.length) :
    let r := h.generateSDK malloc doc type version
    (r.1.db, r.2.map Prod.snd) = h.db.generateSDK (some type) (version.map Prod.snd) ∧
      r.1.mData.length = r.1.db.mData.length := by
  unfold generateSDK XmlDatabase.generateSDK
  cases version with
  | none => exact ⟨rfl, hlength⟩
  | some version =>
      simp only [Option.map_some]
      cases hfound : h.db.mData.findIdx? fun sdk => strcmp type.bytes sdk.mType.bytes = 0 with
      | some sdk =>
          refine ⟨?_, hlength⟩
          have hlt : sdk < h.mData.length := by
            rw [hlength]
            exact (List.findIdx?_eq_some_iff_getElem.mp hfound).1
          show (h.db, ((h.mData[sdk]?).map fun block => (block, sdk)).map Prod.snd) =
            (h.db, some sdk)
          rw [List.getElem?_eq_getElem hlt]
          rfl
      | none =>
          refine ⟨rfl, ?_⟩
          show (h.mData ++ [_]).length = (h.db.mData ++ [_]).length
          rw [List.length_append, List.length_append, hlength]
          rfl

/-- The block of a text that is not null. -/
def textBlocks (text : Option (κ × CString)) : List κ := (text.map Prod.fst).toList

theorem textBlocks_length (text : Option (κ × CString)) :
    (textBlocks text).length = (text.map Prod.snd).toList.length := by
  cases text <;> rfl

/-! ## The blocks of one operation -/

variable [DecidableEq κ] {malloc : Malloc κ} {h : ParserHeap κ} {names front back : List κ}
  {block doc : κ}

theorem alloc_owns (hmalloc : Allocates malloc) (how : Owns h.log names) :
    Owns (h.alloc malloc).1.log (names ++ [(h.alloc malloc).2]) :=
  how.opens_fresh hmalloc

theorem reads_owns (how : Owns h.log names) {blocks : List κ} (hsub : ∀ b ∈ blocks, b ∈ names) :
    Owns (h.reads blocks).log names :=
  how.acts_all .reads hsub

theorem free_owns (how : Owns h.log (front ++ block :: back)) :
    Owns (h.free block).log (front ++ back) :=
  how.closes_between

theorem copyText_owns (hmalloc : Allocates malloc) (how : Owns h.log names) (hdoc : doc ∈ names)
    (text : Option CString) :
    Owns (h.copyText malloc doc text).1.log
      (names ++ textBlocks (h.copyText malloc doc text).2) := by
  have hread : Owns (h.reads [doc]).log names := reads_owns how (by simpa using hdoc)
  cases text with
  | none => simpa [copyText, textBlocks] using hread
  | some text => exact alloc_owns hmalloc hread

theorem freeText_owns {text : Option (κ × CString)}
    (how : Owns h.log (front ++ (textBlocks text ++ back))) :
    Owns (h.freeText text).log (front ++ back) := by
  cases text with
  | none => exact how
  | some text => exact free_owns how

theorem freeText_last {text : Option (κ × CString)} (how : Owns h.log (names ++ textBlocks text)) :
    Owns (h.freeText text).log names := by
  rw [← List.append_nil (textBlocks text)] at how
  simpa using freeText_owns how

theorem addItem_owns (how : Owns h.log names) (sdk : κ × Nat) (hsdk : sdk.1 ∈ names)
    {pro val : Option (κ × CString)} (hpro : ∀ b ∈ textBlocks pro, b ∈ names)
    (hval : ∀ b ∈ textBlocks val, b ∈ names) :
    Owns (h.addItem sdk pro val).log names := by
  cases pro with
  | none => exact how
  | some pro =>
      cases val with
      | none => exact how
      | some val =>
          have hread : Owns (h.reads [val.1, pro.1, sdk.1]).log names := by
            refine reads_owns how fun b hb => ?_
            simp only [List.mem_cons, List.not_mem_nil, or_false] at hb
            rcases hb with rfl | rfl | rfl
            · exact hval _ (by simp [textBlocks])
            · exact hpro _ (by simp [textBlocks])
            · exact hsdk
          exact hread.acts hsdk .writes

theorem addChild_owns (hmalloc : Allocates malloc) (how : Owns h.log names) (hdoc : doc ∈ names)
    {sdk : κ × Nat} (hsdk : sdk.1 ∈ names) (curNode : XmlNode) :
    Owns (h.addChild malloc doc sdk curNode).log names := by
  have hone : ∀ b ∈ [doc], b ∈ names := by simpa using hdoc
  have hname := reads_owns how hone
  unfold addChild
  dsimp only
  split
  · have hpro := copyText_owns hmalloc hname hdoc curNode.version
    have hval := copyText_owns hmalloc hpro (List.mem_append_left _ hdoc) curNode.content
    have hadd := addItem_owns hval sdk
      (List.mem_append_left _ (List.mem_append_left _ hsdk))
      (fun b hb => List.mem_append_left _ (List.mem_append_right _ hb))
      (fun b hb => List.mem_append_right _ hb)
    rw [List.append_assoc] at hadd
    exact reads_owns (freeText_last (freeText_owns hadd)) hone
  · exact reads_owns hname hone

theorem children_owns (hmalloc : Allocates malloc) {sdk : κ × Nat} (hdoc : doc ∈ names)
    (hsdk : sdk.1 ∈ names) (children : List XmlNode) (how : Owns h.log names) :
    Owns (children.foldl (addChild malloc doc sdk) h).log names := by
  induction children generalizing h with
  | nil => exact how
  | cons curNode children ih => exact ih (addChild_owns hmalloc how hdoc hsdk curNode)

/-- A new entry is the only block that is left, and the pointer is one to an entry. -/
theorem generateSDK_owns (hmalloc : Allocates malloc) (how : Owns h.log names)
    (hdoc : doc ∈ names) (hdata : ∀ b ∈ h.mData, b ∈ names) (type : CString)
    {version : Option (κ × CString)} (hversion : ∀ b ∈ textBlocks version, b ∈ names) :
    let r := h.generateSDK malloc doc type version
    ∃ entry, r.1.mData = h.mData ++ entry ∧ Owns r.1.log (names ++ entry) ∧
      ∀ sdk, r.2 = some sdk → sdk.1 ∈ r.1.mData := by
  unfold generateSDK
  cases version with
  | none => exact ⟨[], (List.append_nil _).symm, by simpa using how, nofun⟩
  | some version =>
      dsimp only
      cases h.db.mData.findIdx? fun sdk => strcmp type.bytes sdk.mType.bytes = 0 with
      | some place =>
          have hread : Owns (h.reads (doc :: h.mData.take (place + 1))).log names := by
            refine reads_owns how fun b hb => ?_
            rcases List.mem_cons.mp hb with rfl | hb
            · exact hdoc
            · exact hdata b (List.mem_of_mem_take hb)
          refine ⟨[], (List.append_nil _).symm, by simpa using hread, fun sdk hsdk => ?_⟩
          obtain ⟨block, hblock, rfl⟩ := Option.map_eq_some_iff.mp hsdk
          exact List.mem_of_getElem? hblock
      | none =>
          have hread : Owns (h.reads (doc :: h.mData)).log names := by
            refine reads_owns how fun b hb => ?_
            rcases List.mem_cons.mp hb with rfl | hb
            · exact hdoc
            · exact hdata b hb
          have hnew := alloc_owns hmalloc hread
          refine ⟨[((h.reads (doc :: h.mData)).alloc malloc).2], rfl, ?_, ?_⟩
          · have hcopied : ∀ b ∈ [doc, version.1], b ∈ names := by
              intro b hb
              simp only [List.mem_cons, List.not_mem_nil, or_false] at hb
              rcases hb with rfl | rfl
              · exact hdoc
              · exact hversion _ (by simp [textBlocks])
            exact reads_owns hnew fun b hb => List.mem_append_left _ (hcopied b hb)
          · rintro sdk hsdk
            obtain rfl := Option.some.inj hsdk
            exact List.mem_append_right _ (List.mem_singleton_self _)

end ParserHeap

/-! ## Runs of calls -/

variable [DecidableEq κ]

/-- The blocks in use are those of the entries and the leaked ones. -/
structure Accounts (h : ParserHeap κ) (leaked : List κ) : Prop where
  owned : ∃ names, Owns h.log names ∧ names.Perm (h.mData ++ leaked)
  length : h.mData.length = h.db.mData.length

/-- The same while a document is in use. -/
structure Reading (h : ParserHeap κ) (doc : κ) (leaked : List κ) : Prop where
  owned : ∃ front back, Owns h.log (front ++ doc :: back) ∧
    (front ++ back).Perm (h.mData ++ leaked)
  length : h.mData.length = h.db.mData.length

section Calls

open ParserHeap

variable {malloc : Malloc κ} {h : ParserHeap κ} {leaked : List κ} {doc : κ}

theorem Accounts.empty : Accounts (ParserHeap.empty : ParserHeap κ) [] :=
  ⟨⟨[], Owns.start, List.Perm.refl _⟩, rfl⟩

theorem Accounts.opened (hacc : Accounts h leaked) (hmalloc : Allocates malloc) :
    Reading (h.alloc malloc).1 (h.alloc malloc).2 leaked := by
  obtain ⟨⟨names, how, hperm⟩, hlength⟩ := hacc
  refine ⟨⟨names, [], alloc_owns hmalloc how, ?_⟩, hlength⟩
  rw [List.append_nil]
  exact hperm

theorem Reading.freed (hread : Reading h doc leaked) : Accounts (h.free doc) leaked := by
  obtain ⟨⟨front, back, how, hperm⟩, hlength⟩ := hread
  exact ⟨⟨front ++ back, free_owns how, hperm⟩, hlength⟩

theorem Reading.copied (hread : Reading h doc leaked) (hmalloc : Allocates malloc)
    (text : Option CString) :
    Reading (h.copyText malloc doc text).1 doc
      (leaked ++ textBlocks (h.copyText malloc doc text).2) := by
  obtain ⟨⟨front, back, how, hperm⟩, hlength⟩ := hread
  obtain ⟨hdb, hdata⟩ := copyText_store malloc h doc text
  refine ⟨⟨front, back ++ textBlocks (h.copyText malloc doc text).2, ?_, ?_⟩, ?_⟩
  · have hcopy := copyText_owns hmalloc how (List.mem_append_right front List.mem_cons_self) text
    rwa [List.append_assoc, List.cons_append] at hcopy
  · rw [hdata, ← List.append_assoc, ← List.append_assoc]
    exact hperm.append_right _
  · rw [hdb, hdata]
    exact hlength

theorem Reading.generated (hread : Reading h doc leaked) (hmalloc : Allocates malloc)
    (type : CString) (version : Option (κ × CString))
    (hversion : ∀ b ∈ textBlocks version, b ∈ leaked) :
    let r := h.generateSDK malloc doc type version
    Reading r.1 doc leaked ∧ ∀ sdk, r.2 = some sdk → sdk.1 ∈ r.1.mData := by
  obtain ⟨⟨front, back, how, hperm⟩, hlength⟩ := hread
  have hmem : ∀ b ∈ h.mData ++ leaked, b ∈ front ++ doc :: back := by
    intro b hb
    rcases List.mem_append.mp (hperm.mem_iff.mpr hb) with hfront | hback
    · exact List.mem_append_left _ hfront
    · exact List.mem_append_right _ (List.mem_cons_of_mem doc hback)
  obtain ⟨entry, hdata, hnew, hsdk⟩ := generateSDK_owns hmalloc how
    (List.mem_append_right front List.mem_cons_self)
    (fun b hb => hmem b (List.mem_append_left _ hb)) type
    (fun b hb => hmem b (List.mem_append_right _ (hversion b hb)))
  refine ⟨⟨⟨front, back ++ entry, ?_, ?_⟩, ?_⟩, hsdk⟩
  · rwa [List.append_assoc, List.cons_append] at hnew
  · rw [hdata, ← List.append_assoc]
    apply (hperm.append_right entry).trans
    rw [List.append_assoc, List.append_assoc]
    exact List.perm_append_comm.append_left h.mData
  · exact (generateSDK_store malloc h doc type version hlength).2

theorem Reading.looped (hread : Reading h doc leaked) (hmalloc : Allocates malloc)
    {sdk : κ × Nat} (hsdk : sdk.1 ∈ h.mData) (children : List XmlNode) :
    Reading (children.foldl (addChild malloc doc sdk) (h.reads [doc])) doc leaked := by
  obtain ⟨⟨front, back, how, hperm⟩, hlength⟩ := hread
  obtain ⟨hdb, hdata⟩ := children_store malloc doc sdk children (h.reads [doc])
  have hmem : sdk.1 ∈ front ++ doc :: back := by
    have hnames := hperm.mem_iff.mpr (List.mem_append_left leaked hsdk)
    rcases List.mem_append.mp hnames with hfront | hback
    · exact List.mem_append_left _ hfront
    · exact List.mem_append_right _ (List.mem_cons_of_mem doc hback)
  refine ⟨⟨front, back, ?_, ?_⟩, ?_⟩
  · exact children_owns hmalloc (by simp) hmem children (reads_owns how (by simp))
  · rw [hdata]
    exact hperm
  · rw [hdb, hdata, List.length_modify]
    exact hlength

/-- The part of `parser` behind `xmlDocGetRootElement`. -/
theorem Reading.root (hread : Reading h doc leaked) (hmalloc : Allocates malloc)
    (curNode : XmlRoot) :
    let v := h.copyText malloc doc curNode.version
    let r : ParserHeap κ × Int :=
      match v.1.generateSDK malloc doc curNode.name v.2 with
      | (h, none) => (h.free doc, -1)
      | (h, some sdk) =>
          ((curNode.children.foldl (addChild malloc doc sdk) (h.reads [doc])).free doc, 0)
    (r.1.db, r.2) =
        (match h.db.generateSDK (some curNode.name) curNode.version with
          | (db, none) => (db, (-1 : Int))
          | (db, some sdk) =>
              (⟨db.mData.modify sdk (curNode.children.foldl XmlDatabase.addChild)⟩, 0)) ∧
      Accounts r.1 (leaked ++ textBlocks v.2) := by
  intro v
  have hcopied := hread.copied hmalloc curNode.version
  have htext := copyText_text malloc h doc curNode.version
  obtain ⟨hgen, hsdk⟩ := hcopied.generated hmalloc curNode.name v.2
    fun b hb => List.mem_append_right _ hb
  have hstore := (generateSDK_store malloc v.1 doc curNode.name v.2 hcopied.length).1
  rw [show v.2.map Prod.snd = curNode.version from htext,
    show v.1.db = h.db from (copyText_store malloc h doc curNode.version).1] at hstore
  dsimp only
  rw [← hstore]
  change Reading (v.1.generateSDK malloc doc curNode.name v.2).1 doc (leaked ++ textBlocks v.2)
    at hgen
  change ∀ sdk, (v.1.generateSDK malloc doc curNode.name v.2).2 = some sdk → _ at hsdk
  generalize v.1.generateSDK malloc doc curNode.name v.2 = g at hgen hsdk ⊢
  obtain ⟨h', sdk⟩ := g
  cases sdk with
  | none => exact ⟨rfl, hgen.freed⟩
  | some sdk =>
      refine ⟨?_, (hgen.looped hmalloc (hsdk sdk rfl) curNode.children).freed⟩
      exact congrArg (·, 0) (children_store malloc doc sdk curNode.children (h'.reads [doc])).1

/-- One call: the store and the result are those of `parser`, and a document that is
accepted leaves one block behind. -/
theorem Accounts.call (hacc : Accounts h leaked) (hmalloc : Allocates malloc)
    (call : ParserCall) :
    let r := call.onHeap malloc h
    (r.1.db, r.2) = call.exec h.db ∧
      ∃ more, Accounts r.1 (leaked ++ more) ∧ more.length = call.document.toList.length := by
  unfold ParserCall.onHeap ParserCall.exec ParserCall.document ParserHeap.parser
    XmlDatabase.parser
  have hsame : ∃ more, Accounts h (leaked ++ more) ∧ more.length = 0 :=
    ⟨[], by rwa [List.append_nil], rfl⟩
  cases call.filepath with
  | none => exact ⟨rfl, hsame⟩
  | some filepath =>
      simp only [bind, Option.bind, pure]
      cases call.xmlReadFile filepath with
      | none => exact ⟨rfl, hsame⟩
      | some tree =>
          dsimp only
          have hdoc := hacc.opened hmalloc
          cases tree.root with
          | none =>
              refine ⟨rfl, [], ?_, rfl⟩
              rw [List.append_nil]
              exact hdoc.freed
          | some curNode =>
              obtain ⟨hstore, hroot⟩ := hdoc.root hmalloc curNode
              refine ⟨hstore, _, hroot, ?_⟩
              rw [textBlocks_length, copyText_text]
              obtain ⟨name, version, children⟩ := curNode
              cases version <;> rfl

theorem parseAllOnHeap_accounts (hmalloc : Allocates malloc) (calls : List ParserCall) :
    (parseAllOnHeap malloc calls).db = parseAll calls ∧
      ∃ leaked, Accounts (parseAllOnHeap malloc calls) leaked ∧
        leaked.length = (documents calls).length := by
  induction calls using List.reverseRecOn with
  | nil => exact ⟨rfl, [], Accounts.empty, rfl⟩
  | append_singleton calls call ih =>
      obtain ⟨hdb, leaked, hacc, hcount⟩ := ih
      obtain ⟨hstore, more, hmore, hlength⟩ := hacc.call hmalloc call
      rw [parseAllOnHeap_snoc, parseAll_snoc]
      refine ⟨?_, leaked ++ more, hmore, ?_⟩
      · rw [← hdb]
        exact congrArg Prod.fst hstore
      · rw [List.length_append, hcount, hlength, documents, documents, List.filterMap_append,
          List.length_append]
        cases hd : call.document <;> simp [hd]

/-- The destructor frees each entry once and nothing else. -/
theorem Accounts.destroyed (hacc : Accounts h leaked) :
    Tidy h.destroy.log ∧ (openNames (lives h.destroy.log)).Perm leaked := by
  obtain ⟨⟨names, how, hperm⟩, -⟩ := hacc
  have hnodup := hperm.nodup_iff.mp how.nodup
  have hclosed := how.closes_all (List.nodup_append.mp hnodup).1
    fun b hb => hperm.mem_iff.mpr (List.mem_append_left _ hb)
  refine ⟨hclosed.tidy, ?_⟩
  have hentries : h.mData.filter (· ∉ h.mData) = [] := by
    rw [List.filter_eq_nil_iff]
    simp
  have hothers : leaked.filter (· ∉ h.mData) = leaked := by
    rw [List.filter_eq_self]
    intro b hb
    exact decide_eq_true fun hmem => (List.nodup_append.mp hnodup).2.2 b hmem b hb rfl
  have hleft := hperm.filter fun b => decide (b ∉ h.mData)
  rw [List.filter_append, hentries, hothers, List.nil_append] at hleft
  rw [show openNames (lives h.destroy.log) = _ from hclosed.exact]
  exact hleft

/-- For every sequence of `parser` calls and every allocator: the store and the results
are those of the model without memory, no block is used or freed after it was freed,
and what is in use is the entries and one block for each accepted document; after the
destructor these blocks are all that is left. -/
theorem parser_memory (hmalloc : Allocates malloc) (calls : List ParserCall) :
    let h := parseAllOnHeap malloc calls
    h.db = parseAll calls ∧
    (∀ call : ParserCall, (call.onHeap malloc h).2 = (call.exec (parseAll calls)).2) ∧
    Tidy h.destroy.log ∧
    ∃ leaked, leaked.length = (documents calls).length ∧
      (openNames (lives h.log)).Perm (h.mData ++ leaked) ∧
      (openNames (lives h.destroy.log)).Perm leaked := by
  obtain ⟨hdb, leaked, hacc, hcount⟩ := parseAllOnHeap_accounts hmalloc calls
  obtain ⟨htidy, hleft⟩ := hacc.destroyed
  have howned := hacc.owned
  obtain ⟨names, how, hperm⟩ := howned
  refine ⟨hdb, fun call => ?_, htidy, leaked, hcount, how.exact ▸ hperm, hleft⟩
  rw [← hdb]
  exact congrArg Prod.snd (hacc.call hmalloc call).1

end Calls

end Model

/-- A new block at every call, behind all that were ever handed out. -/
def bump (log : List (NameEvent Nat BlockUse)) : Nat :=
  log.foldl (fun last e => match e with | .opens block => max last block | _ => last) 0 + 1

theorem bump_allocates : Allocates bump := by
  have hbound (log : List (NameEvent Nat BlockUse)) (b : Nat) (hb : .opens b ∈ log) :
      b < bump log := by
    rw [bump]
    induction log using List.reverseRecOn with
    | nil => cases hb
    | append_singleton log e ih =>
        rw [List.foldl_append, List.foldl_cons, List.foldl_nil]
        rcases List.mem_append.mp hb with hb | hb
        · have hlast := ih hb
          cases e with
          | opens c =>
              dsimp only
              omega
          | acts c use => exact hlast
          | closes c => exact hlast
        · rw [← List.mem_singleton.mp hb]
          dsimp only
          omega
  intro log hmem
  exact absurd (hbound log _ (opens_mem hmem)) (Nat.lt_irrefl _)

/-- The same file, read twice, leaves two blocks behind. -/
theorem parser_memory_twice :
    let item : XmlNode := ⟨CString.lit "ExternalSDK", some (CString.lit "V1"), some (CString.lit "7")⟩
    let call : ParserCall :=
      ⟨fun _ => some ⟨some ⟨CString.lit "LVR", some (CString.lit "1"), [item]⟩⟩, some default⟩
    (openNames (lives (parseAllOnHeap bump [call, call]).destroy.log)).length = 2 := by
  intro item call
  obtain ⟨leaked, hcount, -, hleft⟩ := (parser_memory bump_allocates [call, call]).2.2.2
  rw [hleft.length_eq, hcount]
  rfl

end VRAdmin
