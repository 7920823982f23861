import VRAdmin.Native.Nodes
import VRAdmin.Server.RequestScans

/-! # Reading a node back

A node that stores what a write hands over and gives back what it stores. `write` may
take a front part of the value only, which `setSystemNode` reports as done, and `read`
may fill `temp` to its last byte, which leaves no terminator in it.
-/

namespace VRAdmin

open Foundation

/-- A write leaves the accepted bytes and nothing else. -/
def FileSystem.Register {ι : Type} (fs : FileSystem ι) (f : ι) : Prop :=
  ∀ old accepted, fs.stored f old accepted = accepted

/-- `open` succeeds, and `write` accepts so many bytes or fails. -/
def NodeIo.writing (accepted : Option Nat) : NodeIo := ⟨true, accepted, []⟩

/-- What `read` moves of a content with the count 128. -/
def readCount (content : Bytes) : Nat := min content.length 128

/-- `open` succeeds, and `read` moves what the count allows. -/
def NodeIo.reading (content behind : Bytes) : NodeIo := ⟨true, some (readCount content), behind⟩

/-- The memory from `temp` on, as its conversion to a string sees it. -/
def tempMemory (content behind : Bytes) : Bytes :=
  tempAfterRead content (readCount content) ++ behind

/-! ## The buffer -/

theorem tempMemory_short {content : Bytes} (hnul : (0 : UInt8) ∉ content)
    (hlen : content.length ≤ 127) (behind : Bytes) :
    cstr (tempMemory content behind) = content ∧ stringReach (tempMemory content behind) ≤ 128 := by
  have hcount : min (readCount content) 128 = content.length := by
    unfold readCount
    omega
  obtain ⟨zeros, hzeros⟩ : ∃ zeros, 128 - content.length = zeros + 1 :=
    ⟨127 - content.length, by omega⟩
  have hmem : tempMemory content behind = content ++ 0 :: (List.replicate zeros 0 ++ behind) := by
    simp only [tempMemory, tempAfterRead, hcount, List.take_length, hzeros, List.replicate_succ,
      List.append_assoc, List.cons_append]
  have hcstr : cstr (tempMemory content behind) = content := by
    rw [hmem]
    exact cstr_append_nul hnul _
  refine ⟨hcstr, ?_⟩
  rw [stringReach, hcstr]
  omega

theorem tempMemory_long {content : Bytes} (hnul : (0 : UInt8) ∉ content)
    (hlen : 128 ≤ content.length) (behind : Bytes) :
    128 < stringReach (tempMemory content behind) := by
  have hcount : min (readCount content) 128 = 128 := by
    unfold readCount
    omega
  have hfull : (content.take 128).length = 128 := by
    rw [List.length_take]
    omega
  have hmem : tempMemory content behind = content.take 128 ++ behind := by
    simp only [tempMemory, tempAfterRead, hcount, hfull, Nat.sub_self, List.replicate_zero,
      List.append_nil]
  have hfront : (0 : UInt8) ∉ content.take 128 := fun h => hnul (List.mem_of_mem_take h)
  rw [hmem, stringReach, cstr_append hfront, List.length_append, hfull]
  omega

/-! ## The two calls -/

theorem getSystemNode_opened {ι : Type} {fs : FileSystem ι} {f : ι} {path : String8}
    (hpath : NodePath (cstr path)) (hfile : fs.lookup (cstr path) = some f) (behind : Bytes)
    (out : String8) :
    (getSystemNode fs (.reading (fs.content f) behind) path out).1 = NO_ERROR ∧
      (getSystemNode fs (.reading (fs.content f) behind) path out).2.1 =
        cstr (tempMemory (fs.content f) behind) := by
  have hperm := (checkAccessNodePerm_iff path).mpr hpath
  simp [getSystemNode, hfile, hperm, FileSystem.openFile, NodeIo.reading, tempMemory]

section Calls

variable {ι : Type} [DecidableEq ι]

theorem setSystemNode_opened {fs : FileSystem ι} {f : ι} {path : String8}
    (hpath : NodePath (cstr path)) (hfile : fs.lookup (cstr path) = some f) (k : Nat)
    (value : String8) :
    (setSystemNode fs (.writing (some k)) path value).1 = NO_ERROR ∧
      (setSystemNode fs (.writing (some k)) path value).2.1 = fs.write f (value.take k) := by
  have hperm := (checkAccessNodePerm_iff path).mpr hpath
  simp [setSystemNode, hfile, hperm, FileSystem.openFile, NodeIo.writing]

theorem setSystemNode_write_failed {fs : FileSystem ι} {f : ι} {path : String8}
    (hpath : NodePath (cstr path)) (hfile : fs.lookup (cstr path) = some f) (value : String8) :
    (setSystemNode fs (.writing none) path value).1 = ERR_RDWR := by
  have hperm := (checkAccessNodePerm_iff path).mpr hpath
  simp [setSystemNode, hfile, hperm, FileSystem.openFile, NodeIo.writing]

/-- A `setSystemNode` that reports no error is followed by a `getSystemNode` that reports
none, gives the value back and finds the end of its string within `temp`. -/
def ReadBack (fs : FileSystem ι) (f : ι) (path value out : String8) (accepted : Option Nat)
    (behind : Bytes) : Prop :=
  let set := setSystemNode fs (.writing accepted) path value
  set.1 = NO_ERROR →
    let content := set.2.1.content f
    let get := getSystemNode set.2.1 (.reading content behind) path out
    get.1 = NO_ERROR ∧ get.2.1 = value ∧ stringReach (tempMemory content behind) ≤ 128

theorem readBack_iff {fs : FileSystem ι} {f : ι} {path : String8} (hpath : NodePath (cstr path))
    (hfile : fs.lookup (cstr path) = some f) (hreg : fs.Register f) (value out : String8) (k : Nat)
    (behind : Bytes) :
    ReadBack fs f path value out (some k) behind ↔
      cstr (tempMemory (value.take k) behind) = value ∧
        stringReach (tempMemory (value.take k) behind) ≤ 128 := by
  obtain ⟨hset, hfs⟩ := setSystemNode_opened hpath hfile k value
  have hcontent : (fs.write f (value.take k)).content f = value.take k := by
    simp only [FileSystem.write, if_true]
    exact hreg _ _
  have hfile' : (fs.write f (value.take k)).lookup (cstr path) = some f := hfile
  obtain ⟨hget, hout⟩ := getSystemNode_opened hpath hfile' behind out
  rw [hcontent] at hget hout
  simp only [ReadBack, hset, hfs, hcontent, hget, hout, true_and, forall_const]

/-- A value is read back exactly when `write` fails or accepts all of it and it leaves
room for a terminator in `temp`. -/
theorem node_read_back {fs : FileSystem ι} {f : ι} {path value : String8}
    (hpath : NodePath (cstr path)) (hfile : fs.lookup (cstr path) = some f)
    (hreg : fs.Register f) (hnul : (0 : UInt8) ∉ value) (out : String8) (accepted : Option Nat)
    (behind : Bytes) :
    ReadBack fs f path value out accepted behind ↔
      ∀ k, accepted = some k → value.length ≤ k ∧ value.length ≤ 127 := by
  cases accepted with
  | none =>
      have hfailed := setSystemNode_write_failed hpath hfile value
      have hne : ERR_RDWR ≠ NO_ERROR := by decide
      refine iff_of_true (fun hdone => ?_) fun k hk => by cases hk
      exact absurd (hfailed.symm.trans hdone) hne
  | some k =>
      rw [readBack_iff hpath hfile hreg]
      have hfront : (0 : UInt8) ∉ value.take k := fun h => hnul (List.mem_of_mem_take h)
      constructor
      · intro ⟨hvalue, hreach⟩ n hn
        cases hn
        have hshort : (value.take k).length ≤ 127 := by
          by_contra hlong
          have hbeyond := tempMemory_long hfront (by omega) behind
          omega
        rw [(tempMemory_short hfront hshort behind).1] at hvalue
        have hlen := congrArg List.length hvalue
        rw [hvalue] at hshort
        rw [List.length_take] at hlen
        exact ⟨by omega, hshort⟩
      · intro hall
        obtain ⟨hk, hlen⟩ := hall k rfl
        rw [List.take_of_length_le hk]
        exact tempMemory_short hnul hlen behind

end Calls

/-- The lowest frequency of the first CPU, alone in its file system. -/
def minFreqPath : Bytes := ascii "/sys/devices/system/cpu/cpu0/cpufreq/scaling_min_freq"

def minFreqNode : FileSystem Unit := FileSystem.oneFile [minFreqPath] []

theorem node_read_back_frequency :
    ReadBack minFreqNode () minFreqPath (ascii "300000") [] (some 6) (ascii "1512000") := by
  have hpath : NodePath (cstr minFreqPath) := by decide +kernel
  have hfile : minFreqNode.lookup (cstr minFreqPath) = some () := by decide +kernel
  apply (node_read_back hpath hfile (fun _ _ => rfl) (by decide) [] (some 6) _).mpr
  intro k hk
  cases hk
  decide

/-- 128 digits that `write` accepts all, and six of which it accepts three. -/
theorem node_read_back_fails :
    (¬ ∀ (fs : FileSystem Unit) (path value out : String8) (accepted : Option Nat)
        (behind : Bytes), NodePath (cstr path) → fs.lookup (cstr path) = some () →
      fs.Register () → (0 : UInt8) ∉ value → ReadBack fs () path value out accepted behind) ∧
    ¬ ReadBack minFreqNode () minFreqPath (ascii "300000") [] (some 3) [] := by
  have hpath : NodePath (cstr minFreqPath) := by decide +kernel
  have hfile : minFreqNode.lookup (cstr minFreqPath) = some () := by decide +kernel
  have hreg : minFreqNode.Register () := fun _ _ => rfl
  constructor
  · intro hall
    have hnul : (0 : UInt8) ∉ List.replicate 128 49 := by decide
    have hread := hall minFreqNode _ _ [] (some 128) [] hpath hfile hreg hnul
    have hreach := ((readBack_iff hpath hfile hreg _ [] 128 []).mp hread).2
    rw [List.take_of_length_le (by simp)] at hreach
    exact absurd (tempMemory_long hnul (by simp) []) (Nat.not_lt.mpr hreach)
  · intro hread
    have hvalue := ((readBack_iff hpath hfile hreg _ [] 3 []).mp hread).1
    exact absurd hvalue (by decide)

end VRAdmin
