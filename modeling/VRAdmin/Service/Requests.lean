import VRAdmin.Flash.StartDownLoad
import VRAdmin.Service.VRMode

/-! # Requests with null arguments

The stub of `IVRAdminService` compares the path, the key and the command with null,
but not the value of the two setters; their native methods compare it behind the
conversion that a null string does not survive. The strings of `startDownLoad` and
`getBoardMode` are concatenated, which makes a text of null.
-/

namespace VRAdmin

open Foundation

/-- A request of a binder client with its arguments. -/
inductive AdminRequest
  | getSystemNode (pathname : Option JString)
  | setSystemNode (pathname freq : Option JString)
  | systemCall (cmd : Option JString)
  | getProperty (key : Option JString)
  | setProperty (key value : Option JString)
  | startDownLoad (firmware : Firmware)
  | getBoardMode (vid pid : Option JString)

/-- The result of a request. -/
inductive AdminAnswer
  | text (s : Option JString)
  | number (n : Int32)
deriving DecidableEq

/-- The line that `getBoardMode` hands to `systemCall`. -/
def boardModeCmd (vid pid : Option JString) : JString :=
  JString.lit "dfu-util -U /xxx" ++ JString.lit "-d " ++ concatenated vid ++ JString.lit ":" ++
    concatenated pid

section Stub

variable {S β : Type} (newStringUTF : CString → Option JString)
  (mVRService : Option (VRManager S β))

namespace VRAdminService

def getSystemNode (s : S) (pathname : Option JString) : Option (S × Option JString) :=
  match mVRService with
  | none => some (s, some [])
  | some vr => if pathname = none then some (s, some []) else vr.getSystemNode newStringUTF s pathname

def systemCall (s : S) (cmd : Option JString) : Option (S × Option JString) :=
  match mVRService with
  | none => some (s, some (JString.lit "-1"))
  | some vr =>
      if cmd = none then some (s, some (JString.lit "-1")) else vr.systemCall newStringUTF s cmd

def getProperty (s : S) (key : Option JString) : Option (S × Option JString) :=
  match mVRService with
  | none => some (s, some [])
  | some vr => if key = none then some (s, some []) else vr.getProperty newStringUTF s key

/-- A call that nobody overlaps; `bRunning` is the flag as the call finds it. -/
def startDownLoad (bRunning : Bool) (s : S) (firmware : Firmware) :
    Option (S × Option JString) :=
  if bRunning then some (s, some (JString.lit "-1"))
  else systemCall newStringUTF mVRService s (some firmware.cmd)

def getBoardMode (s : S) (vid pid : Option JString) : Option (S × Option JString) :=
  systemCall newStringUTF mVRService s (some (boardModeCmd vid pid))

end VRAdminService

/-- The answer to a request with the state it leaves, or none for an abort. -/
def answerRequest (bRunning : Bool) (s : S) : AdminRequest → Option (S × AdminAnswer)
  | .getSystemNode pathname =>
      (VRAdminService.getSystemNode newStringUTF mVRService s pathname).map (Prod.map id .text)
  | .setSystemNode pathname freq =>
      (VRAdminService.setSystemNode mVRService s pathname freq).map (Prod.map id .number)
  | .systemCall cmd =>
      (VRAdminService.systemCall newStringUTF mVRService s cmd).map (Prod.map id .text)
  | .getProperty key =>
      (VRAdminService.getProperty newStringUTF mVRService s key).map (Prod.map id .text)
  | .setProperty key value =>
      (VRAdminService.setProperty mVRService s key value).map (Prod.map id .number)
  | .startDownLoad firmware =>
      (VRAdminService.startDownLoad newStringUTF mVRService bRunning s firmware).map
        (Prod.map id .text)
  | .getBoardMode vid pid =>
      (VRAdminService.getBoardMode newStringUTF mVRService s vid pid).map (Prod.map id .text)

end Stub

namespace AdminRequest

/-- A path, key, value or command is null. -/
def HasNull : AdminRequest → Prop
  | .getSystemNode pathname => pathname = none
  | .setSystemNode pathname freq => pathname = none ∨ freq = none
  | .systemCall cmd => cmd = none
  | .getProperty key => key = none
  | .setProperty key value => key = none ∨ value = none
  | .startDownLoad firmware => firmware.dfuFilePath = none
  | .getBoardMode _ _ => False

/-- The value of a setter is null and what it would be written to is not. -/
def NullValue : AdminRequest → Prop
  | .setSystemNode pathname freq => pathname ≠ none ∧ freq = none
  | .setProperty key value => key ≠ none ∧ value = none
  | _ => False

/-- The path of a firmware file is null. -/
def NullFirmware : AdminRequest → Prop
  | .startDownLoad firmware => firmware.dfuFilePath = none
  | _ => False

/-- What a request answers when it fails. -/
def failure : AdminRequest → AdminAnswer
  | .getSystemNode _ => .text (some [])
  | .getProperty _ => .text (some [])
  | .setSystemNode _ _ => .number (-1)
  | .setProperty _ _ => .number (-1)
  | _ => .text (some (JString.lit "-1"))

end AdminRequest

/-! ## Which null reaches the conversion -/

section Harmless

variable {S β : Type}

theorem nativeSet_answers (method : IVRNativeService S β → S → String8 → String8 → S × Int32)
    (vr : Option (IVRNativeService S β)) (s : S) (first second : JString) :
    ∃ r, nativeSet method vr s (some first) (some second) = some r := by
  cases vr with
  | none => exact ⟨_, rfl⟩
  | some vr => exact ⟨_, rfl⟩

/-- The second string is read before it is compared with null. -/
theorem nativeSet_aborts (method : IVRNativeService S β → S → String8 → String8 → S × Int32)
    (vr : Option (IVRNativeService S β)) (s : S) (first : JString) :
    nativeSet method vr s (some first) none = none := rfl

theorem nativeGet_answers
    (method : IVRNativeService S β → S → String8 → String8 → S × Int32 × String8)
    (newStringUTF : CString → Option JString) (vr : Option (IVRNativeService S β)) (s : S)
    (arg : JString) : ∃ r, nativeGet method newStringUTF vr s (some arg) = some r := by
  cases vr with
  | none => exact ⟨_, rfl⟩
  | some vr => exact ⟨_, rfl⟩

theorem nativeSystemCall_answers (newStringUTF : CString → Option JString)
    (vr : Option (IVRNativeService S β)) (s : S) (cmd : JString) :
    ∃ r, nativeSystemCall newStringUTF vr s (some cmd) = some r := by
  cases vr with
  | none => exact ⟨_, rfl⟩
  | some vr => exact ⟨_, rfl⟩

/-- The shape of the two setters of the stub: of the two strings it checks the first. -/
def guardedSet (method : IVRNativeService S β → S → String8 → String8 → S × Int32)
    (mVRService : Option (VRManager S β)) (s : S) (first second : Option JString) :
    Option (S × Int32) :=
  match mVRService with
  | none => some (s, -1)
  | some vr =>
      if first = none then some (s, -1) else nativeSet method vr.getVRService s first second

/-- The shape of the methods with one string: it is checked before `call` sees it. -/
def guardedText (failed : JString)
    (call : VRManager S β → S → Option JString → Option (S × Option JString))
    (mVRService : Option (VRManager S β)) (s : S) (arg : Option JString) :
    Option (S × Option JString) :=
  match mVRService with
  | none => some (s, some failed)
  | some vr => if arg = none then some (s, some failed) else call vr s arg

theorem guardedSet_harmless
    (method : IVRNativeService S β → S → String8 → String8 → S × Int32)
    (mVRService : Option (VRManager S β)) (s : S) (first second : Option JString) :
    (∃ r, guardedSet method mVRService s first second = some r ∧
        (first = none ∨ second = none → r = (s, -1))) ↔
      ¬ (mVRService ≠ none ∧ first ≠ none ∧ second = none) := by
  cases mVRService with
  | none => simp [guardedSet]
  | some vr =>
      cases first with
      | none => simp [guardedSet]
      | some first =>
          cases second with
          | none => simp [guardedSet, nativeSet_aborts]
          | some second =>
              obtain ⟨r, hr⟩ := nativeSet_answers method vr.getVRService s first second
              simp [guardedSet, hr]

theorem guardedText_harmless (failed : JString)
    {call : VRManager S β → S → Option JString → Option (S × Option JString)}
    (hcall : ∀ vr s arg, ∃ r, call vr s (some arg) = some r)
    (mVRService : Option (VRManager S β)) (s : S) (arg : Option JString) :
    ∃ r, guardedText failed call mVRService s arg = some r ∧
      (arg = none → r = (s, some failed)) := by
  cases mVRService with
  | none => exact ⟨_, rfl, fun _ => rfl⟩
  | some vr =>
      cases arg with
      | none => exact ⟨_, rfl, fun _ => rfl⟩
      | some arg =>
          obtain ⟨r, hr⟩ := hcall vr s arg
          exact ⟨r, hr, fun h => absurd h (by simp)⟩

theorem answered_map {α γ : Type} {wrap : α → γ} (hwrap : Function.Injective wrap)
    (answer : Option α) (Null : Prop) (failed : α) :
    (∃ r, answer.map wrap = some r ∧ (Null → r = wrap failed)) ↔
      ∃ r, answer = some r ∧ (Null → r = failed) := by
  cases answer with
  | none => simp
  | some r => simp [hwrap.eq_iff]

theorem text_injective : Function.Injective (Prod.map (id : S → S) AdminAnswer.text) :=
  Function.injective_id.prodMap fun _ _ h => AdminAnswer.text.inj h

theorem number_injective : Function.Injective (Prod.map (id : S → S) AdminAnswer.number) :=
  Function.injective_id.prodMap fun _ _ h => AdminAnswer.number.inj h

theorem systemCall_harmless (newStringUTF : CString → Option JString)
    (mVRService : Option (VRManager S β)) (s : S) (cmd : Option JString) :
    ∃ r, VRAdminService.systemCall newStringUTF mVRService s cmd = some r ∧
      (cmd = none → r = (s, some (JString.lit "-1"))) :=
  guardedText_harmless (JString.lit "-1")
    (fun vr s cmd => nativeSystemCall_answers newStringUTF vr.getVRService s cmd) mVRService s cmd

theorem startDownLoad_answers (newStringUTF : CString → Option JString)
    (mVRService : Option (VRManager S β)) (bRunning : Bool) (s : S) (firmware : Firmware) :
    ∃ r, VRAdminService.startDownLoad newStringUTF mVRService bRunning s firmware = some r := by
  cases bRunning with
  | true => exact ⟨_, rfl⟩
  | false =>
      obtain ⟨r, hr, -⟩ := systemCall_harmless newStringUTF mVRService s (some firmware.cmd)
      exact ⟨r, hr⟩

/-- The stub's `VRManager`, if it has one, with what its `getVRService` finds. -/
def managerIf (connected : Bool) (vr : Option (IVRNativeService S β)) : Option (VRManager S β) :=
  if connected then some ⟨vr⟩ else none

theorem answered_harmless (newStringUTF : CString → Option JString)
    {mVRService : Option (VRManager S β)} {bRunning : Bool} {s : S} {req : AdminRequest}
    (hfirmware : req.NullFirmware → mVRService = none ∨ bRunning = true) :
    (∃ r, answerRequest newStringUTF mVRService bRunning s req = some r ∧
        (req.HasNull → r = (s, req.failure))) ↔
      ¬ (mVRService ≠ none ∧ req.NullValue) := by
  have hnever : ¬ (mVRService ≠ none ∧ False) := fun h => h.2
  cases req with
  | getSystemNode pathname =>
      refine iff_of_true ?_ hnever
      exact (answered_map text_injective _ _ (s, some [])).mpr <|
        guardedText_harmless []
          (fun vr s arg =>
            nativeGet_answers IVRNativeService.getSystemNode newStringUTF vr.getVRService s arg)
          mVRService s pathname
  | setSystemNode pathname freq =>
      exact (answered_map number_injective _ _ (s, -1)).trans
        (guardedSet_harmless IVRNativeService.setSystemNode mVRService s pathname freq)
  | systemCall cmd =>
      refine iff_of_true ?_ hnever
      exact (answered_map text_injective _ _ (s, some (JString.lit "-1"))).mpr <|
        systemCall_harmless newStringUTF mVRService s cmd
  | getProperty key =>
      refine iff_of_true ?_ hnever
      exact (answered_map text_injective _ _ (s, some [])).mpr <|
        guardedText_harmless []
          (fun vr s arg =>
            nativeGet_answers IVRNativeService.getProperty newStringUTF vr.getVRService s arg)
          mVRService s key
  | setProperty key value =>
      exact (answered_map number_injective _ _ (s, -1)).trans
        (guardedSet_harmless IVRNativeService.setProperty mVRService s key value)
  | startDownLoad firmware =>
      refine iff_of_true ?_ hnever
      by_cases hnull : firmware.dfuFilePath = none
      · refine ⟨(s, .text (some (JString.lit "-1"))), ?_, fun _ => rfl⟩
        rcases hfirmware hnull with rfl | rfl
        · cases bRunning <;> rfl
        · rfl
      · obtain ⟨r, hr⟩ := startDownLoad_answers newStringUTF mVRService bRunning s firmware
        refine ⟨Prod.map id .text r, ?_, fun h => absurd h hnull⟩
        exact congrArg (Option.map _) hr
  | getBoardMode vid pid =>
      obtain ⟨r, hr, -⟩ :=
        systemCall_harmless newStringUTF mVRService s (some (boardModeCmd vid pid))
      refine iff_of_true ⟨Prod.map id .text r, ?_, False.elim⟩ hnever
      exact congrArg (Option.map _) hr

/-- The null path of a firmware file becomes a text, and the command is run with it; with
no service behind `VRManager` the answer is the empty text. -/
theorem nullFirmware_answer (newStringUTF : CString → Option JString) (s : S)
    {req : AdminRequest} (hfirmware : req.NullFirmware) :
    answerRequest newStringUTF (managerIf true (none : Option (IVRNativeService S β))) false s req =
      some (s, .text (newStringUTF default)) := by
  cases req with
  | startDownLoad firmware => rfl
  | getSystemNode | setSystemNode | systemCall | getProperty | setProperty | getBoardMode =>
      exact hfirmware.elim

/-- Whatever service `VRManager` finds, a request is answered, and a null path, key, value
or command gives the failure result and changes nothing, exactly unless the stub has a
`VRManager` and either a setter with something to write to hands it a null value, at which
the process aborts, or `startDownLoad` hands it a command with the text of a null path. -/
theorem null_arguments (newStringUTF : CString → Option JString)
    (hempty : newStringUTF default = some []) (connected bRunning : Bool) (s : S)
    (req : AdminRequest) :
    (∀ vr : Option (IVRNativeService S β),
      ∃ r, answerRequest newStringUTF (managerIf connected vr) bRunning s req = some r ∧
        (req.HasNull → r = (s, req.failure))) ↔
      ¬ (connected = true ∧ (req.NullValue ∨ req.NullFirmware ∧ bRunning = false)) := by
  have hboth (hvalue : req.NullValue) : ¬ req.NullFirmware := by
    cases req with
    | startDownLoad => exact hvalue.elim
    | getSystemNode | setSystemNode | systemCall | getProperty | setProperty | getBoardMode =>
        exact id
  constructor
  · rintro hall ⟨rfl, hvalue | ⟨hfirmware, rfl⟩⟩
    · refine (answered_harmless newStringUTF fun h => absurd h (hboth hvalue)).mp (hall none) ?_
      exact ⟨Option.some_ne_none _, hvalue⟩
    · obtain ⟨r, hr, hfailed⟩ := hall none
      rw [nullFirmware_answer newStringUTF s hfirmware] at hr
      cases req with
      | startDownLoad firmware =>
          have hanswer := (Option.some.inj hr).trans (hfailed hfirmware)
          have htext := AdminAnswer.text.inj (congrArg Prod.snd hanswer)
          rw [hempty] at htext
          exact absurd htext (by decide)
      | getSystemNode | setSystemNode | systemCall | getProperty | setProperty | getBoardMode =>
          exact hfirmware.elim
  · intro hcond vr
    refine (answered_harmless newStringUTF fun hfirmware => ?_).mpr fun ⟨hsome, hvalue⟩ => ?_
    · cases connected with
      | false => exact Or.inl rfl
      | true =>
          right
          by_contra hidle
          exact hcond ⟨rfl, Or.inr ⟨hfirmware, Bool.eq_false_of_not_eq_true hidle⟩⟩
    · cases connected with
      | false => exact hsome rfl
      | true => exact hcond ⟨rfl, Or.inl hvalue⟩

theorem null_arguments_refused :
    ∃ r, answerRequest (fun _ => some []) (managerIf true (some countingService)) true 0
        (.startDownLoad ⟨none, none, none⟩) = some r ∧
      r = (0, .text (some (JString.lit "-1"))) := by
  obtain ⟨r, hr, hfailed⟩ :=
    (null_arguments (fun _ => some []) rfl true true 0
      (.startDownLoad ⟨none, none, none⟩)).mpr (by simp [AdminRequest.NullValue])
      (some countingService)
  exact ⟨r, hr, hfailed rfl⟩

/-- `setProperty("k", null)` aborts the process. -/
theorem null_arguments_fails :
    ¬ ∀ req : AdminRequest,
      ∃ r, answerRequest (fun _ => none) (some ⟨some countingService⟩) false 0 req = some r ∧
        (req.HasNull → r = (0, req.failure)) := by
  intro hall
  obtain ⟨r, hr, -⟩ := hall (.setProperty (some (JString.lit "k")) none)
  exact absurd hr (by simp [answerRequest, VRAdminService.setProperty, VRManager.setProperty,
    nativeSetProperty, nativeSet_aborts])

end Harmless

end VRAdmin
