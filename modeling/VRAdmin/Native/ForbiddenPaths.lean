import VRAdmin.Native.Nodes

/-! # What a call on a forbidden path tells

Both functions ask whether the path exists before they ask the white list, and have a
code for either answer. A caller sees which of the two codes it gets and nothing else
of what lies outside the white list, in one call and in any sequence of calls.
-/

namespace VRAdmin

open Foundation

/-- What the caller of a node function gets: its return code and the out-string, which
`setSystemNode` does not have. -/
def nodeAnswer {ι : Type} [DecidableEq ι] (fs : FileSystem ι) : NodeCall → Int32 × String8
  | .getSystemNode io path value =>
      ((getSystemNode fs io path value).1, (getSystemNode fs io path value).2.1)
  | .setSystemNode io path value => ((setSystemNode fs io path value).1, value)

namespace NodeCall

def path : NodeCall → String8
  | .getSystemNode _ path _ => path
  | .setSystemNode _ path _ => path

def value : NodeCall → String8
  | .getSystemNode _ _ value => value
  | .setSystemNode _ _ value => value

end NodeCall

section Calls

variable {ι κ : Type} [DecidableEq ι] [DecidableEq κ]

theorem nodeAnswer_refused {call : NodeCall} (h : ¬ NodePath (cstr call.path))
    (fs : FileSystem ι) :
    nodeAnswer fs call =
      (if fs.lookup (cstr call.path) = none then ERR_NOFOUND else ERR_PERM, call.value) := by
  cases call with
  | getSystemNode io path value =>
      have hpath : ¬ NodePath (cstr path) := h
      rw [nodeAnswer, getSystemNode_refused hpath]
      rfl
  | setSystemNode io path value =>
      have hpath : ¬ NodePath (cstr path) := h
      rw [nodeAnswer, setSystemNode_refused hpath]
      rfl

theorem step_refused {call : NodeCall} (h : ¬ NodePath (cstr call.path)) (fs : FileSystem ι) :
    (nodeCalls.step fs call).1 = fs := by
  cases call with
  | getSystemNode io path value => rfl
  | setSystemNode io path value => exact congrArg (·.2.1) (setSystemNode_refused h fs io value)

theorem refusal_code_eq_iff (missing missing' : Prop) [Decidable missing] [Decidable missing'] :
    (if missing then ERR_NOFOUND else ERR_PERM) = (if missing' then ERR_NOFOUND else ERR_PERM) ↔
      (missing ↔ missing') := by
  have hne : ERR_NOFOUND ≠ ERR_PERM := by decide
  by_cases h : missing <;> by_cases h' : missing' <;> simp [h, h', hne, hne.symm]

/-- A call on a forbidden path answers the same in two file systems exactly when the path
exists in both or in neither, and its out-string is the same in all of them. -/
theorem forbidden_path_answers {path : String8} (h : ¬ NodePath (cstr path))
    (fs : FileSystem ι) (fs' : FileSystem κ) (io io' : NodeIo) (value : String8) :
    (getSystemNode fs io path value).2.1 = (getSystemNode fs' io' path value).2.1 ∧
    ((getSystemNode fs io path value).1 = (getSystemNode fs' io' path value).1 ↔
      (fs.lookup (cstr path) = none ↔ fs'.lookup (cstr path) = none)) ∧
    ((setSystemNode fs io path value).1 = (setSystemNode fs' io' path value).1 ↔
      (fs.lookup (cstr path) = none ↔ fs'.lookup (cstr path) = none)) := by
  rw [getSystemNode_refused h, getSystemNode_refused h, setSystemNode_refused h,
    setSystemNode_refused h]
  exact ⟨rfl, refusal_code_eq_iff _ _, refusal_code_eq_iff _ _⟩

theorem forbidden_path_answers_content :
    (getSystemNode (FileSystem.oneFile [ascii "/data/key"] (ascii "a")) ⟨true, some 1, []⟩
        (ascii "/data/key") []).1 =
      (getSystemNode (FileSystem.oneFile [ascii "/data/key"] (ascii "b")) ⟨true, none, []⟩
        (ascii "/data/key") []).1 :=
  (forbidden_path_answers (by decide +kernel) (FileSystem.oneFile [ascii "/data/key"] (ascii "a"))
    (FileSystem.oneFile [ascii "/data/key"] (ascii "b")) _ _ []).2.1.mpr Iff.rfl

/-- Whether there is a file does. -/
theorem forbidden_path_answers_differ :
    ¬ ∀ (path : String8) (fs fs' : FileSystem Unit) (io : NodeIo) (value : String8),
      ¬ NodePath (cstr path) →
        (getSystemNode fs io path value).1 = (getSystemNode fs' io path value).1 ∧
        (getSystemNode fs io path value).2.1 = (getSystemNode fs' io path value).2.1 ∧
        (setSystemNode fs io path value).1 = (setSystemNode fs' io path value).1 := by
  intro hall
  have hpath : ¬ NodePath (cstr (ascii "/data/key")) := by decide +kernel
  have hcode := (hall (ascii "/data/key") (FileSystem.oneFile [ascii "/data/key"] [])
    (FileSystem.oneFile [] []) ⟨true, some 0, []⟩ [] hpath).1
  rw [getSystemNode_refused hpath, getSystemNode_refused hpath] at hcode
  exact absurd hcode (by decide +kernel)

end Calls

/-! ## File systems that differ outside the white list -/

/-- Two file systems with the same nodes behind the white list. Elsewhere they have files
under the same paths; which files these are and what they hold may differ. -/
structure Alike {ι : Type} (fs fs' : FileSystem ι) : Prop where
  exists_iff : ∀ path, fs.lookup path = none ↔ fs'.lookup path = none
  lookup_eq : ∀ path, NodePath path → fs.lookup path = fs'.lookup path
  content_eq : ∀ f, fs.Listed f → fs.content f = fs'.content f
  stored_eq : ∀ f, fs.Listed f → fs.stored f = fs'.stored f

namespace Alike

variable {ι : Type} {fs fs' : FileSystem ι}

theorem openFile_eq (h : Alike fs fs') {path : Bytes} (hpath : NodePath path) (io : NodeIo) :
    fs.openFile io path = fs'.openFile io path := by
  unfold FileSystem.openFile
  rw [h.lookup_eq path hpath]

theorem listed_of_open {path : Bytes} (hpath : NodePath path) {io : NodeIo} {f : ι}
    (hopen : fs.openFile io path = some f) : fs.Listed f :=
  ⟨path, hpath, openFile_lookup hopen⟩

theorem getSystemNode_eq (h : Alike fs fs') {path : String8} (hpath : NodePath (cstr path))
    (io : NodeIo) (value : String8) :
    getSystemNode fs io path value = getSystemNode fs' io path value := by
  have hfile := h.lookup_eq _ hpath
  have hopen := h.openFile_eq hpath io
  unfold getSystemNode
  simp only [← hfile, ← hopen]
  cases hf : fs.openFile io (cstr path) with
  | none => rfl
  | some f => simp only [h.content_eq f (listed_of_open hpath hf)]

end Alike

/-! ## Sequences of calls -/

section Sequences

variable {ι : Type} [DecidableEq ι]

def nodeAnswers (fs : FileSystem ι) : List NodeCall → List (Int32 × String8)
  | [] => []
  | call :: rest => nodeAnswer fs call :: nodeAnswers (nodeCalls.step fs call).1 rest

namespace Alike

variable {fs fs' : FileSystem ι}

theorem write (h : Alike fs fs') {f : ι} (hf : fs.Listed f) (accepted : Bytes) :
    Alike (fs.write f accepted) (fs'.write f accepted) := by
  refine ⟨h.exists_iff, h.lookup_eq, ?_, h.stored_eq⟩
  intro g hg
  by_cases hgf : g = f
  · simp only [FileSystem.write, hgf, if_true, h.content_eq f hf, h.stored_eq f hf]
  · rw [fs.write_content_other hgf, fs'.write_content_other hgf]
    exact h.content_eq g hg

theorem setSystemNode_alike (h : Alike fs fs') {path : String8} (hpath : NodePath (cstr path))
    (io : NodeIo) (value : String8) :
    (setSystemNode fs io path value).1 = (setSystemNode fs' io path value).1 ∧
      Alike (setSystemNode fs io path value).2.1
        (setSystemNode fs' io path value).2.1 := by
  have hperm := (checkAccessNodePerm_iff path).mpr hpath
  have hopen := h.openFile_eq hpath io
  unfold setSystemNode
  simp only [hperm, Bool.not_true, Bool.false_eq_true, if_false, ← h.lookup_eq _ hpath, ← hopen]
  split
  · exact ⟨rfl, h⟩
  · cases hfile : fs.openFile io (cstr path) with
    | none => exact ⟨rfl, h⟩
    | some f =>
        cases io.moved with
        | none => exact ⟨rfl, h⟩
        | some n => exact ⟨rfl, h.write (listed_of_open hpath hfile) _⟩

theorem step (h : Alike fs fs') (call : NodeCall) :
    nodeAnswer fs call = nodeAnswer fs' call ∧
      Alike (nodeCalls.step fs call).1 (nodeCalls.step fs' call).1 := by
  by_cases hpath : NodePath (cstr call.path)
  · cases call with
    | getSystemNode io path value =>
        have heq := h.getSystemNode_eq hpath io value
        exact ⟨congrArg (fun r => (r.1, r.2.1)) heq, h⟩
    | setSystemNode io path value =>
        obtain ⟨hcode, halike⟩ := h.setSystemNode_alike hpath io value
        exact ⟨congrArg (·, value) hcode, halike⟩
  · rw [nodeAnswer_refused hpath, nodeAnswer_refused hpath, step_refused hpath,
      step_refused hpath]
    exact ⟨congrArg (·, call.value) ((refusal_code_eq_iff _ _).mpr (h.exists_iff _)), h⟩

/-- No sequence of calls tells two alike file systems apart. The induction is on the
calls; each keeps the file systems alike. -/
theorem answers_eq (h : Alike fs fs') (calls : List NodeCall) :
    nodeAnswers fs calls = nodeAnswers fs' calls := by
  induction calls generalizing fs fs' with
  | nil => rfl
  | cons call rest ih =>
      obtain ⟨hanswer, halike⟩ := h.step call
      rw [nodeAnswers, nodeAnswers, hanswer, ih halike]

end Alike

end Sequences

end VRAdmin
