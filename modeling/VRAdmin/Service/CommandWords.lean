import VRAdmin.Native.Permission
import VRAdmin.Service.Requests

/-! # The words of the dfu-util commands

`startDownLoad` and `getBoardMode` glue their commands from fragments around the strings
of the caller. The fragments of `startDownLoad` begin and end with the blanks between the
words; in `getBoardMode` the blank in front of `-d` is missing.
-/

namespace VRAdmin

open Foundation

/-- A letter, a digit or one of `_`, `.`, `/`, `-`. -/
def isArgumentChar (u : UInt16) : Bool :=
  (65 ≤ u && u ≤ 90) || (97 ≤ u && u ≤ 122) || (48 ≤ u && u ≤ 57) || u ∈ [95, 46, 47, 45]

/-- A string that is fit to be an argument of a command. -/
structure Argument where
  text : JString
  nonempty : text ≠ []
  chars : ∀ u ∈ text, isArgumentChar u = true

theorem Argument.no_space (a : Argument) : (32 : UInt16) ∉ a.text := by
  intro hmem
  exact absurd (a.chars 32 hmem) (by decide)

/-- The words of a line that is cut at each space. -/
def wordsOf (line : JString) : List JString := line.splitOn 32

/-- The line that has these words. -/
def joined (words : List JString) : JString := [32].intercalate words

theorem wordsOf_joined {words : List JString} (hspace : ∀ w ∈ words, (32 : UInt16) ∉ w)
    (hne : words ≠ []) : wordsOf (joined words) = words :=
  List.splitOn_intercalate 32 hspace hne

theorem prefix_joined (word : JString) (words : List JString) :
    word <+: joined (word :: words) := by
  cases words with
  | nil => rw [joined, List.intercalate_singleton]
  | cons next words =>
      rw [joined, List.intercalate_cons_cons, List.append_assoc]
      exact List.prefix_append _ _

/-- The word behind the first word that is this option. -/
def operandOf (option : JString) : List JString → Option JString
  | [] => none
  | word :: rest => if word = option then rest.head? else operandOf option rest

theorem operandOf_eq_none {option : JString} {words : List JString} (h : option ∉ words) :
    operandOf option words = none := by
  induction words with
  | nil => rfl
  | cons word rest ih =>
      rw [List.mem_cons, not_or] at h
      rw [operandOf, if_neg (Ne.symm h.1)]
      exact ih h.2

/-- The operand of `-d`: the device with this vendor and product. -/
def deviceId (vid pid : JString) : JString := vid ++ JString.lit ":" ++ pid

/-- The words which `getBoardMode` is to pass. -/
def boardModeWords (vid pid : JString) : List JString :=
  ["dfu-util", "-U", "/xxx", "-d"].map JString.lit ++ [deviceId vid pid]

/-- The words it passes. -/
def boardModeWordsMade (vid pid : JString) : List JString :=
  ["dfu-util", "-U", "/xxx-d"].map JString.lit ++ [deviceId vid pid]

/-- The words which `startDownLoad` is to pass. -/
def startDownLoadWords (dfuFilePath vid pid : JString) : List JString :=
  ["dfu-util", "-v", "-a", "0", "-s", ":mass-erase:force", "-d"].map JString.lit ++
    [deviceId vid pid, JString.lit "-D", dfuFilePath, JString.lit "2>&1"]

/-! ## The lines as joined words -/

theorem startDownLoad_joined (dfuFilePath vid pid : JString) :
    Firmware.cmd ⟨some dfuFilePath, some vid, some pid⟩ =
      joined (startDownLoadWords dfuFilePath vid pid) := by
  simp only [Firmware.cmd, concatenated, Option.getD_some, joined, startDownLoadWords, deviceId,
    List.map_cons, List.map_nil, List.cons_append, List.nil_append, List.intercalate_cons_cons,
    List.intercalate_singleton, List.append_assoc]
  rfl

theorem boardMode_joined (vid pid : JString) :
    boardModeCmd (some vid) (some pid) = joined (boardModeWordsMade vid pid) := by
  simp only [boardModeCmd, concatenated, Option.getD_some, joined, boardModeWordsMade, deviceId,
    List.map_cons, List.map_nil, List.cons_append, List.nil_append, List.intercalate_cons_cons,
    List.intercalate_singleton, List.append_assoc]
  rfl

/-! ## The words -/

theorem deviceId_no_space (vid pid : Argument) : (32 : UInt16) ∉ deviceId vid.text pid.text := by
  simp only [deviceId, List.mem_append, not_or]
  exact ⟨⟨vid.no_space, by decide⟩, pid.no_space⟩

/-- The id has a colon, and `-d` has none. -/
theorem deviceId_ne_option (vid pid : JString) : deviceId vid pid ≠ JString.lit "-d" := by
  intro heq
  have hcolon : (58 : UInt16) ∈ deviceId vid pid := by
    simp only [deviceId, List.mem_append]
    exact Or.inl (Or.inr (by decide))
  rw [heq] at hcolon
  exact absurd hcolon (by decide)

theorem boardMode_words (vid pid : Argument) :
    wordsOf (boardModeCmd (some vid.text) (some pid.text)) =
      boardModeWordsMade vid.text pid.text := by
  have hlits : ∀ w ∈ ["dfu-util", "-U", "/xxx-d"].map JString.lit, (32 : UInt16) ∉ w := by
    decide
  rw [boardMode_joined]
  apply wordsOf_joined
  · intro w hw
    rcases List.mem_append.mp hw with hlit | hid
    · exact hlits w hlit
    · rw [List.mem_singleton.mp hid]
      exact deviceId_no_space vid pid
  · exact List.cons_ne_nil _ _

theorem startDownLoad_words (dfuFilePath vid pid : Argument) :
    wordsOf (Firmware.cmd ⟨some dfuFilePath.text, some vid.text, some pid.text⟩) =
      startDownLoadWords dfuFilePath.text vid.text pid.text := by
  have hlits : ∀ w ∈ ["dfu-util", "-v", "-a", "0", "-s", ":mass-erase:force", "-d"].map JString.lit,
      (32 : UInt16) ∉ w := by
    decide
  rw [startDownLoad_joined]
  apply wordsOf_joined
  · intro w hw
    rcases List.mem_append.mp hw with hlit | hrest
    · exact hlits w hlit
    · simp only [List.mem_cons, List.not_mem_nil, or_false] at hrest
      rcases hrest with rfl | rfl | rfl | rfl
      · exact deviceId_no_space vid pid
      · decide
      · exact dfuFilePath.no_space
      · decide
  · exact List.cons_ne_nil _ _

/-- The check looks at the first bytes only, and these are the same in both lines. -/
theorem dfu_util_passes {line : JString} (h : JString.lit "dfu-util" <+: line) :
    checkSyscallPerm (some (nativeText line)) = true := by
  obtain ⟨rest, rfl⟩ := h
  have hutf : (JString.lit "dfu-util" ++ rest).utfChars =
      ascii "dfu-util" ++ JString.utfChars rest := List.flatMap_append
  have hnul : (0 : UInt8) ∉ ascii "dfu-util" := by decide
  refine (checkSyscallPerm_iff _).mpr ⟨ascii "dfu-util", by decide, ?_⟩
  rw [nativeText, hutf, cstr_append hnul, cstr_append hnul, cstr_append hnul]
  exact List.prefix_append _ _

theorem startDownLoad_passes (dfuFilePath vid pid : JString) :
    checkSyscallPerm
      (some (nativeText (Firmware.cmd ⟨some dfuFilePath, some vid, some pid⟩))) = true := by
  apply dfu_util_passes
  rw [startDownLoad_joined]
  exact prefix_joined _ _

theorem boardMode_passes (vid pid : JString) :
    checkSyscallPerm (some (nativeText (boardModeCmd (some vid) (some pid)))) = true := by
  apply dfu_util_passes
  rw [boardMode_joined]
  exact prefix_joined _ _

/-- A line splits into these words, its `-d` has this operand, and the check accepts it. -/
structure BuiltAs (line : JString) (words : List JString) (device : JString) : Prop where
  words_eq : wordsOf line = words
  operand_eq : operandOf (JString.lit "-d") (wordsOf line) = some device
  passes : checkSyscallPerm (some (nativeText line)) = true

/-- `startDownLoad` passes the intended words. `getBoardMode` never does: `-d` has become
a part of the word in front of it, and the device id is the operand of no option. -/
theorem command_words (dfuFilePath vid pid : Argument) :
    let download := Firmware.cmd ⟨some dfuFilePath.text, some vid.text, some pid.text⟩
    let board := boardModeCmd (some vid.text) (some pid.text)
    let device := deviceId vid.text pid.text
    ¬ (BuiltAs board (boardModeWords vid.text pid.text) device ∧
      BuiltAs download (startDownLoadWords dfuFilePath.text vid.text pid.text) device) ∧
    BuiltAs download (startDownLoadWords dfuFilePath.text vid.text pid.text) device ∧
    wordsOf board = boardModeWordsMade vid.text pid.text ∧
    operandOf (JString.lit "-d") (wordsOf board) = none ∧
    checkSyscallPerm (some (nativeText board)) = true := by
  intro download board device
  have hboard : wordsOf board = boardModeWordsMade vid.text pid.text := boardMode_words vid pid
  have hdownload := startDownLoad_words dfuFilePath vid pid
  have hnone : operandOf (JString.lit "-d") (wordsOf board) = none := by
    rw [hboard]
    apply operandOf_eq_none
    intro hmem
    rcases List.mem_append.mp hmem with hlit | hid
    · exact absurd hlit (by decide)
    · exact deviceId_ne_option _ _ (List.mem_singleton.mp hid).symm
  refine ⟨?_, ⟨hdownload, ?_, startDownLoad_passes _ _ _⟩, hboard, hnone, boardMode_passes _ _⟩
  · intro h
    have hsome := h.1.operand_eq
    rw [hnone] at hsome
    cases hsome
  · rw [hdownload]
    rfl

theorem command_words_device :
    ¬ ∀ dfuFilePath vid pid : Argument,
      BuiltAs (boardModeCmd (some vid.text) (some pid.text)) (boardModeWords vid.text pid.text)
          (deviceId vid.text pid.text) ∧
        BuiltAs (Firmware.cmd ⟨some dfuFilePath.text, some vid.text, some pid.text⟩)
          (startDownLoadWords dfuFilePath.text vid.text pid.text) (deviceId vid.text pid.text) := by
  intro hall
  let vid : Argument := ⟨JString.lit "0483", by decide, List.all_eq_true.mp (by decide)⟩
  let pid : Argument := ⟨JString.lit "df11", by decide, List.all_eq_true.mp (by decide)⟩
  let path : Argument :=
    ⟨JString.lit "/sdcard/fw.bin", by decide, List.all_eq_true.mp (by decide)⟩
  have hwords := (hall path vid pid).1.words_eq
  rw [boardMode_words] at hwords
  exact absurd hwords (by decide)

end VRAdmin
