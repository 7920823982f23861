import Mathlib.Data.List.Infix
import VRAdmin.Foundation.CString

/-! # The two white lists of vrserver

`_CheckAccessNodePerm` formats every allowed node into a small buffer and compares
it with the whole path; `_CheckSyscallPerm` compares only the first bytes of a
command. Both see the C string of their argument.
-/

namespace VRAdmin

open Foundation

/-- `String8` keeps its length, so its bytes may hold a NUL; `string()` denotes
their `cstr`. -/
abbrev String8 := Bytes

/-! ## Nodes -/

def kCpuMaxCount : Nat := 10

def gCpuNodeNames : List Bytes :=
  [ascii "cpufreq/scaling_min_freq", ascii "cpufreq/scaling_available_frequencies",
    ascii "cpufreq/scaling_cur_freq"]

def kGpuMaxCount : Nat := 4

def gGpuNodeNames : List Bytes := [ascii "msm_cmd_autorefresh_en"]

def cpuDir : Bytes := ascii "/sys/devices/system/cpu/cpu"
def gpuDir : Bytes := ascii "/sys/devices/virtual/graphics/fb"

/-- The text of the format `dir%d/%s`. -/
def nodeText (dir : Bytes) (i : Nat) (name : Bytes) : Bytes := dir ++ decimal i ++ ascii "/" ++ name

/-- One of the two nested loops; the first match returns. -/
def matchNode (dir : Bytes) (maxCount : Nat) (names : List Bytes) (nodepath : Bytes) : Bool :=
  (List.range maxCount).any fun i => names.any fun name =>
    strcmp (snprintf 127 (nodeText dir i name)) nodepath == 0

def checkAccessNodePerm : Option Bytes → Bool
  | none => false
  | some nodepath =>
      matchNode cpuDir kCpuMaxCount gCpuNodeNames nodepath ||
        matchNode gpuDir kGpuMaxCount gGpuNodeNames nodepath

/-- The paths which the white list is meant to name. -/
def NodePath (path : Bytes) : Prop :=
  (∃ i < 10, ∃ name ∈ ["scaling_min_freq", "scaling_available_frequencies", "scaling_cur_freq"],
    path = ascii "/sys/devices/system/cpu/cpu" ++ decimal i ++ ascii "/cpufreq/" ++ ascii name) ∨
  ∃ i < 4, path =
    ascii "/sys/devices/virtual/graphics/fb" ++ decimal i ++ ascii "/msm_cmd_autorefresh_en"

/-- All texts the loops compare with. -/
def nodeTexts : List Bytes :=
  (List.range kCpuMaxCount).flatMap (fun i => gCpuNodeNames.map (nodeText cpuDir i)) ++
    (List.range kGpuMaxCount).flatMap (fun i => gGpuNodeNames.map (nodeText gpuDir i))

theorem nodePath_iff (path : Bytes) : NodePath path ↔ path ∈ nodeTexts := by
  have hcpu (i : Nat) (name : String) :
      ascii "/sys/devices/system/cpu/cpu" ++ decimal i ++ ascii "/cpufreq/" ++ ascii name =
        nodeText cpuDir i (ascii "cpufreq/" ++ ascii name) := by
    have hsplit : ascii "/cpufreq/" = ascii "/" ++ ascii "cpufreq/" := rfl
    simp only [nodeText, cpuDir, hsplit, List.append_assoc]
  have hgpu (i : Nat) :
      ascii "/sys/devices/virtual/graphics/fb" ++ decimal i ++ ascii "/msm_cmd_autorefresh_en" =
        nodeText gpuDir i (ascii "msm_cmd_autorefresh_en") := by
    have hsplit : ascii "/msm_cmd_autorefresh_en" = ascii "/" ++ ascii "msm_cmd_autorefresh_en" :=
      rfl
    simp only [nodeText, gpuDir, hsplit, List.append_assoc]
  have hnames : gCpuNodeNames =
      ["scaling_min_freq", "scaling_available_frequencies", "scaling_cur_freq"].map
        fun name => ascii "cpufreq/" ++ ascii name := rfl
  simp only [NodePath, hcpu, hgpu, nodeTexts, hnames, gGpuNodeNames, kCpuMaxCount, kGpuMaxCount,
    List.mem_append, List.mem_flatMap, List.mem_range, List.map_cons, List.map_nil, List.mem_cons,
    List.not_mem_nil, or_false, or_and_right, exists_or, exists_eq_left]

instance (path : Bytes) : Decidable (NodePath path) := decidable_of_iff _ (nodePath_iff path).symm

/-! ## The texts one by one -/

/-- Neither `..` nor an empty component. -/
structure Canonical (path : Bytes) : Prop where
  noDots : ¬ ascii ".." <:+: path
  noDoubleSlash : ¬ ascii "//" <:+: path
  noTrailingSlash : ¬ ascii "/" <:+ path

instance (path : Bytes) : Decidable (Canonical path) :=
  decidable_of_iff
    (¬ ascii ".." <:+: path ∧ ¬ ascii "//" <:+: path ∧ ¬ ascii "/" <:+ path)
    ⟨fun h => ⟨h.1, h.2.1, h.2.2⟩, fun h => ⟨h.noDots, h.noDoubleSlash, h.noTrailingSlash⟩⟩

/-- No text is cut by the 127 bytes given to `snprintf`, none holds a NUL, and all are
spelled without detours. -/
theorem nodeTexts_checked :
    ∀ text ∈ nodeTexts, text.length ≤ 126 ∧ (0 : UInt8) ∉ text ∧ Canonical text := by
  decide +kernel

theorem snprintf_nodeText {text : Bytes} (h : text ∈ nodeTexts) : snprintf 127 text = text :=
  List.take_of_length_le (nodeTexts_checked text h).1

theorem nodeTexts_noNul {text : Bytes} (h : text ∈ nodeTexts) : (0 : UInt8) ∉ text :=
  (nodeTexts_checked text h).2.1

/-! ## The loops -/

theorem matchNode_iff {dir : Bytes} {maxCount : Nat} {names : List Bytes}
    (hsub : ∀ i < maxCount, ∀ name ∈ names, nodeText dir i name ∈ nodeTexts) (nodepath : Bytes) :
    matchNode dir maxCount names nodepath = true ↔
      cstr nodepath ∈ (List.range maxCount).flatMap fun i => names.map (nodeText dir i) := by
  simp only [matchNode, List.any_eq_true, List.mem_range, beq_iff_eq, List.mem_flatMap,
    List.mem_map]
  have hstrcmp : ∀ i < maxCount, ∀ name ∈ names,
      (strcmp (snprintf 127 (nodeText dir i name)) nodepath = 0 ↔
        nodeText dir i name = cstr nodepath) := by
    intro i hi name hname
    have htext := hsub i hi name hname
    rw [snprintf_nodeText htext, strcmp_eq_zero_iff, cstr_eq_self (nodeTexts_noNul htext)]
  constructor
  · intro ⟨i, hi, name, hname, hcmp⟩
    exact ⟨i, hi, name, hname, (hstrcmp i hi name hname).mp hcmp⟩
  · intro ⟨i, hi, name, hname, heq⟩
    exact ⟨i, hi, name, hname, (hstrcmp i hi name hname).mpr heq⟩

theorem checkAccessNodePerm_iff (path : String8) :
    checkAccessNodePerm (some path) = true ↔ NodePath (cstr path) := by
  rw [nodePath_iff, checkAccessNodePerm, Bool.or_eq_true, nodeTexts, List.mem_append]
  rw [matchNode_iff, matchNode_iff]
  · intro i hi name hname
    exact List.mem_append_right _ (List.mem_flatMap.mpr
      ⟨i, List.mem_range.mpr hi, List.mem_map_of_mem hname⟩)
  · intro i hi name hname
    exact List.mem_append_left _ (List.mem_flatMap.mpr
      ⟨i, List.mem_range.mpr hi, List.mem_map_of_mem hname⟩)

/-! ## Spelling of the accepted paths -/

theorem NodePath.canonical {path : Bytes} (h : NodePath path) : Canonical path := by
  exact (nodeTexts_checked path ((nodePath_iff path).mp h)).2.2

/-- No accepted path extends another. -/
theorem NodePath.eq_of_prefix {path longer : Bytes} (h : NodePath path) (hl : NodePath longer)
    (hpre : path <+: longer) : path = longer := by
  -- the CPU directory is 27 bytes long, and the texts differ behind it
  have hall : ∀ text ∈ nodeTexts, ∀ longer ∈ nodeTexts,
      text.drop 27 <+: longer.drop 27 → text = longer := by decide +kernel
  exact hall path ((nodePath_iff path).mp h) longer ((nodePath_iff longer).mp hl) (hpre.drop 27)

theorem NodePath.one_digit {dir number rest : Bytes} (hdir : dir = cpuDir ∨ dir = gpuDir)
    (hnumber : (47 : UInt8) ∉ number) (h : NodePath (dir ++ number ++ ascii "/" ++ rest)) :
    number.length = 1 := by
  have hall : ∀ text ∈ nodeTexts, ∀ dir ∈ [cpuDir, gpuDir], dir <+: text →
      ((text.drop dir.length).takeWhile (· ≠ 47)).length = 1 := by decide +kernel
  have hone := hall _ ((nodePath_iff _).mp h) dir (by simpa using hdir)
    ⟨number ++ ascii "/" ++ rest, by simp only [List.append_assoc]⟩
  have hdrop : (dir ++ number ++ ascii "/" ++ rest).drop dir.length =
      number ++ (47 :: rest) := by
    rw [List.append_assoc, List.append_assoc, List.drop_left]
    rfl
  have hall47 : ∀ b ∈ number, decide (b ≠ 47) = true := by
    intro b hb
    exact decide_eq_true fun h47 => hnumber (h47 ▸ hb)
  rwa [hdrop, List.takeWhile_append_of_pos hall47, List.takeWhile_cons_of_neg (by decide),
    List.append_nil] at hone

/-! ## Commands -/

def gSysCallCommands : List Bytes := [ascii "dfu-util", ascii "service call"]

def checkSyscallPerm : Option Bytes → Bool
  | none => false
  | some cmd => gSysCallCommands.any fun temp => strncmp temp cmd temp.length == 0

theorem checkSyscallPerm_iff (cmd : String8) :
    checkSyscallPerm (some cmd) = true ↔ ∃ temp ∈ gSysCallCommands, temp <+: cstr cmd := by
  have hnul : ∀ temp ∈ gSysCallCommands, (0 : UInt8) ∉ temp := by decide
  simp only [checkSyscallPerm, List.any_eq_true, beq_iff_eq]
  constructor
  · intro ⟨temp, htemp, hcmp⟩
    exact ⟨temp, htemp, (strncmp_length_eq_zero_iff (hnul temp htemp) cmd).mp hcmp⟩
  · intro ⟨temp, htemp, hpre⟩
    exact ⟨temp, htemp, (strncmp_length_eq_zero_iff (hnul temp htemp) cmd).mpr hpre⟩

end VRAdmin
