import VRAdmin.Foundation.Machine
import VRAdmin.Native.Permission

/-! # Reading and writing system nodes

`getSystemNode` and `setSystemNode` over an arbitrary file system: several paths
may name one file, and what a write leaves in a file is up to the file. The
kernel's answers to `open`, `read` and `write` are inputs of each call.
-/

namespace VRAdmin

open Foundation

def NO_ERROR : Int32 := 0
def ERR_PERM : Int32 := -2
def ERR_NOFOUND : Int32 := -3
def ERR_RDWR : Int32 := -4

/-- The files behind the paths, with their content and with the content that a
write of some bytes over an old content leaves. -/
structure FileSystem (ι : Type) where
  lookup : Bytes → Option ι
  content : ι → Bytes
  stored : ι → Bytes → Bytes → Bytes

/-- The kernel's answers in one call: whether `open` succeeds, the bytes moved by
`read` or `write` (`none` for -1), and the stack behind `temp`. -/
structure NodeIo where
  opens : Bool
  moved : Option Nat
  behind : Bytes
deriving DecidableEq

inductive NodeEvent (ι : Type)
  | access (path : Bytes)
  | opened (path : Bytes) (file : Option ι)
  | read (file : ι)
  | write (file : ι) (buf : Bytes)
  | close (file : ι)
deriving DecidableEq

section Calls

variable {ι : Type}

namespace NodeEvent

/-- The call opens, reads or writes this file. -/
def touches (f : ι) : NodeEvent ι → Prop
  | .access _ => False
  | .opened _ file => file = some f
  | .read file => file = f
  | .write file _ => file = f
  | .close _ => False

end NodeEvent

namespace FileSystem

/-- The file that an `open` of the path yields. -/
def openFile (fs : FileSystem ι) (io : NodeIo) (path : Bytes) : Option ι :=
  if io.opens then fs.lookup path else none

section

variable [DecidableEq ι]

/-- `write` accepts a front part of the buffer. -/
def write (fs : FileSystem ι) (f : ι) (accepted : Bytes) : FileSystem ι :=
  { fs with content := fun g => if g = f then fs.stored f (fs.content f) accepted else fs.content g }

theorem write_content_other (fs : FileSystem ι) {f g : ι} (h : g ≠ f) (accepted : Bytes) :
    (fs.write f accepted).content g = fs.content g := if_neg h

end

/-- A single file under these paths, which holds what was written last. -/
def oneFile (paths : List Bytes) (text : Bytes) : FileSystem Unit where
  lookup path := if paths.contains path then some () else none
  content _ := text
  stored _ _ accepted := accepted

end FileSystem

/-- The zeroed `char temp[128]` after `read` moved `n` bytes into it. -/
def tempAfterRead (content : Bytes) (n : Nat) : Bytes :=
  let got := content.take (min n 128)
  got ++ List.replicate (128 - got.length) 0

def getSystemNode (fs : FileSystem ι) (io : NodeIo) (path value : String8) :
    Int32 × String8 × List (NodeEvent ι) :=
  let p := cstr path
  if fs.lookup p = none then (ERR_NOFOUND, value, [.access p])
  else if !checkAccessNodePerm (some path) then (ERR_PERM, value, [.access p])
  else match fs.openFile io p with
    | none => (ERR_PERM, value, [.access p, .opened p none])
    | some f => match io.moved with
      | none => (ERR_RDWR, value, [.access p, .opened p (some f), .read f, .close f])
      | some n =>
          (NO_ERROR, cstr (tempAfterRead (fs.content f) n ++ io.behind),
            [.access p, .opened p (some f), .read f, .close f])

def setSystemNode [DecidableEq ι] (fs : FileSystem ι) (io : NodeIo) (path value : String8) :
    Int32 × FileSystem ι × List (NodeEvent ι) :=
  let p := cstr path
  if fs.lookup p = none then (ERR_NOFOUND, fs, [.access p])
  else if !checkAccessNodePerm (some path) then (ERR_PERM, fs, [.access p])
  else match fs.openFile io p with
    | none => (ERR_PERM, fs, [.access p, .opened p none])
    | some f => match io.moved with
      | none => (ERR_RDWR, fs, [.access p, .opened p (some f), .write f value, .close f])
      | some n =>
          (NO_ERROR, fs.write f (value.take n),
            [.access p, .opened p (some f), .write f value, .close f])

theorem check_refused {path : String8} (h : ¬ NodePath (cstr path)) :
    checkAccessNodePerm (some path) = false := by
  rwa [← Bool.not_eq_true, checkAccessNodePerm_iff]

theorem getSystemNode_refused {path : String8} (h : ¬ NodePath (cstr path)) (fs : FileSystem ι)
    (io : NodeIo) (value : String8) :
    getSystemNode fs io path value =
      (if fs.lookup (cstr path) = none then ERR_NOFOUND else ERR_PERM, value,
        [.access (cstr path)]) := by
  have hperm := check_refused h
  unfold getSystemNode
  by_cases hnone : fs.lookup (cstr path) = none
  · simp only [hnone, if_true]
  · simp only [hnone, hperm, if_false, Bool.not_false, if_true]

theorem setSystemNode_refused [DecidableEq ι] {path : String8} (h : ¬ NodePath (cstr path))
    (fs : FileSystem ι) (io : NodeIo) (value : String8) :
    setSystemNode fs io path value =
      (if fs.lookup (cstr path) = none then ERR_NOFOUND else ERR_PERM, fs,
        [.access (cstr path)]) := by
  have hperm := check_refused h
  unfold setSystemNode
  by_cases hnone : fs.lookup (cstr path) = none
  · simp only [hnone, if_true]
  · simp only [hnone, hperm, if_false, Bool.not_false, if_true]

/-! ## Sequences of calls -/

inductive NodeCall
  | getSystemNode (io : NodeIo) (path value : String8)
  | setSystemNode (io : NodeIo) (path value : String8)

def nodeCalls [DecidableEq ι] : Machine (FileSystem ι) NodeCall (NodeEvent ι) where
  step fs
    | .getSystemNode io path value => (fs, (getSystemNode fs io path value).2.2)
    | .setSystemNode io path value => (setSystemNode fs io path value).2

/-- A file that some accepted path names. -/
def FileSystem.Listed (fs : FileSystem ι) (f : ι) : Prop := ∃ p, NodePath p ∧ fs.lookup p = some f

/-- What calls may do to the file system: only listed files are touched, under an
accepted path, and all others keep their content. -/
structure Framed (fs : FileSystem ι) (events : List (NodeEvent ι)) (fs' : FileSystem ι) : Prop where
  lookup_eq : fs'.lookup = fs.lookup
  opened : ∀ path file, .opened path file ∈ events → NodePath path
  touched : ∀ e ∈ events, ∀ f, e.touches f → fs.Listed f
  kept : ∀ f, ¬ fs.Listed f → fs'.content f = fs.content f

namespace Framed

theorem refl (fs : FileSystem ι) : Framed fs [] fs :=
  ⟨rfl, by simp, by simp, fun _ _ => rfl⟩

theorem trans {fs fs' fs'' : FileSystem ι} {first second : List (NodeEvent ι)}
    (h : Framed fs first fs') (h' : Framed fs' second fs'') :
    Framed fs (first ++ second) fs'' := by
  have hlisted : ∀ f, fs'.Listed f ↔ fs.Listed f := by
    intro f
    rw [FileSystem.Listed, FileSystem.Listed, h.lookup_eq]
  refine ⟨h'.lookup_eq.trans h.lookup_eq, ?_, ?_, ?_⟩
  · intro path file hmem
    rcases List.mem_append.mp hmem with hmem | hmem
    · exact h.opened path file hmem
    · exact h'.opened path file hmem
  · intro e he f hf
    rcases List.mem_append.mp he with he | he
    · exact h.touched e he f hf
    · exact (hlisted f).mp (h'.touched e he f hf)
  · intro f hf
    rw [h'.kept f (mt (hlisted f).mp hf), h.kept f hf]

/-- A call that never reaches `open`. -/
theorem of_access (fs : FileSystem ι) (path : Bytes) : Framed fs [.access path] fs :=
  ⟨rfl, by simp, by simp [NodeEvent.touches], fun _ _ => rfl⟩

theorem of_failed_open (fs : FileSystem ι) {path : Bytes} (h : NodePath path) :
    Framed fs [.access path, .opened path none] fs := by
  refine ⟨rfl, ?_, by simp [NodeEvent.touches], fun _ _ => rfl⟩
  intro other file hmem
  simp only [List.mem_cons, reduceCtorEq, NodeEvent.opened.injEq, false_or, List.not_mem_nil,
    or_false] at hmem
  exact hmem.1 ▸ h

/-- A call that opens the file of an accepted path and moves bytes once. -/
theorem of_opened {fs fs' : FileSystem ι} {path : Bytes} {f : ι} {act : NodeEvent ι}
    (h : NodePath path) (hf : fs.lookup path = some f) (hact : ∀ g, act.touches g → g = f)
    (hnot : ∀ p file, act ≠ .opened p file) (hlookup : fs'.lookup = fs.lookup)
    (hkept : ∀ g, g ≠ f → fs'.content g = fs.content g) :
    Framed fs [.access path, .opened path (some f), act, .close f] fs' := by
  refine ⟨hlookup, ?_, ?_, ?_⟩
  · intro other file hmem
    simp only [List.mem_cons, reduceCtorEq, NodeEvent.opened.injEq, false_or, List.not_mem_nil,
      or_false] at hmem
    rcases hmem with ⟨rfl, -⟩ | hmem
    · exact h
    · exact (hnot other file hmem.symm).elim
  · intro e he g hg
    simp only [List.mem_cons, List.not_mem_nil, or_false] at he
    have hgf : g = f := by
      rcases he with rfl | rfl | rfl | rfl
      · exact hg.elim
      · exact (Option.some.inj hg).symm
      · exact hact g hg
      · exact hg.elim
    exact ⟨path, h, hgf ▸ hf⟩
  · intro g hg
    apply hkept g
    intro hgf
    exact hg ⟨path, h, hgf ▸ hf⟩

end Framed

theorem openFile_lookup {fs : FileSystem ι} {io : NodeIo} {path : Bytes} {f : ι}
    (h : fs.openFile io path = some f) : fs.lookup path = some f := by
  unfold FileSystem.openFile at h
  split at h
  · exact h
  · cases h

theorem getSystemNode_framed (fs : FileSystem ι) (io : NodeIo) (path value : String8) :
    Framed fs (getSystemNode fs io path value).2.2 fs := by
  by_cases hpath : NodePath (cstr path)
  · have hperm := (checkAccessNodePerm_iff path).mpr hpath
    unfold getSystemNode
    by_cases hnone : fs.lookup (cstr path) = none
    · simp only [hnone, if_true]
      exact Framed.of_access fs _
    · simp only [hnone, hperm, if_false, Bool.not_true, Bool.false_eq_true]
      cases hopen : fs.openFile io (cstr path) with
      | none => exact Framed.of_failed_open fs hpath
      | some f =>
          have hread : Framed fs
              [.access (cstr path), .opened (cstr path) (some f), .read f, .close f] fs :=
            Framed.of_opened hpath (openFile_lookup hopen) (fun g hg => hg.symm) (by simp) rfl
              fun _ _ => rfl
          cases io.moved with
          | none => exact hread
          | some n => exact hread
  · rw [getSystemNode_refused hpath]
    exact Framed.of_access fs _

theorem setSystemNode_framed [DecidableEq ι] (fs : FileSystem ι) (io : NodeIo)
    (path value : String8) :
    Framed fs (setSystemNode fs io path value).2.2 (setSystemNode fs io path value).2.1 := by
  by_cases hpath : NodePath (cstr path)
  · have hperm := (checkAccessNodePerm_iff path).mpr hpath
    unfold setSystemNode
    by_cases hnone : fs.lookup (cstr path) = none
    · simp only [hnone, if_true]
      exact Framed.of_access fs _
    · simp only [hnone, hperm, if_false, Bool.not_true, Bool.false_eq_true]
      cases hopen : fs.openFile io (cstr path) with
      | none => exact Framed.of_failed_open fs hpath
      | some f =>
          have hwrite : ∀ fs' : FileSystem ι, fs'.lookup = fs.lookup →
              (∀ g, g ≠ f → fs'.content g = fs.content g) → Framed fs
                [.access (cstr path), .opened (cstr path) (some f), .write f value, .close f] fs' :=
            fun fs' => Framed.of_opened hpath (openFile_lookup hopen) (fun g hg => hg.symm) (by simp)
          cases io.moved with
          | none => exact hwrite fs rfl fun _ _ => rfl
          | some n => exact hwrite _ rfl fun g hg => fs.write_content_other hg _
  · rw [setSystemNode_refused hpath]
    exact Framed.of_access fs _

theorem nodeCalls_framed [DecidableEq ι] (fs : FileSystem ι) (calls : List NodeCall) :
    Framed fs (nodeCalls.run fs calls).2 (nodeCalls.run fs calls).1 := by
  apply Machine.run_related Framed.refl Framed.trans
  intro fs call
  cases call with
  | getSystemNode io path value => exact getSystemNode_framed fs io path value
  | setSystemNode io path value => exact setSystemNode_framed fs io path value

/-- The check accepts exactly the listed nodes in their one spelling, and no
sequence of calls opens, reads, writes or changes any other file; a call on another
path fails and gives nothing back. -/
theorem node_whitelist (ι : Type) [DecidableEq ι] :
    (∀ path : String8, checkAccessNodePerm (some path) = true ↔ NodePath (cstr path)) ∧
    (∀ path, NodePath path → snprintf 127 path = path ∧ Canonical path ∧
      (∀ longer, NodePath longer → path <+: longer → path = longer) ∧
      ∀ dir number rest, dir = cpuDir ∨ dir = gpuDir → (47 : UInt8) ∉ number →
        path = dir ++ number ++ ascii "/" ++ rest → number.length = 1) ∧
    (∀ (fs : FileSystem ι) (io : NodeIo) (path value : String8), ¬ NodePath (cstr path) →
      (getSystemNode fs io path value).1 < 0 ∧ (getSystemNode fs io path value).2.1 = value ∧
        (setSystemNode fs io path value).1 < 0) ∧
    ∀ (fs : FileSystem ι) (calls : List NodeCall),
      (∀ path file, .opened path file ∈ (nodeCalls.run fs calls).2 → NodePath path) ∧
      ∀ f, ¬ fs.Listed f →
        (nodeCalls.run fs calls).1.content f = fs.content f ∧
        ∀ e ∈ (nodeCalls.run fs calls).2, ¬ e.touches f := by
  have hneg : ERR_NOFOUND < 0 ∧ ERR_PERM < 0 := by decide
  refine ⟨checkAccessNodePerm_iff, ?_, ?_, ?_⟩
  · intro path hpath
    refine ⟨snprintf_nodeText ((nodePath_iff path).mp hpath), hpath.canonical,
      fun longer => hpath.eq_of_prefix, ?_⟩
    intro dir number rest hdir hnumber hsplit
    exact NodePath.one_digit hdir hnumber (hsplit ▸ hpath)
  · intro fs io path value hpath
    rw [getSystemNode_refused hpath, setSystemNode_refused hpath]
    refine ⟨?_, rfl, ?_⟩
    · dsimp only
      split
      · exact hneg.1
      · exact hneg.2
    · dsimp only
      split
      · exact hneg.1
      · exact hneg.2
  · intro fs calls
    have hframed := nodeCalls_framed fs calls
    refine ⟨hframed.opened, ?_⟩
    intro f hf
    exact ⟨hframed.kept f hf, fun e he ht => hf (hframed.touched e he f ht)⟩

end Calls

end VRAdmin
