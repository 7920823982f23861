import VRAdmin.Binder.RemoteCall
import VRAdmin.Native.VRNativeService
import VRAdmin.Service.VRAdminService

/-! # The VR mode over all layers

The setters of the Java service reach vrserver through `VRManager`, the native
methods and the binder proxy. The state is that of the stub together with that of
vrserver, and each step of the stub performs the calls it makes.
-/

namespace VRAdmin

open Foundation

section Setters

variable {S β M : Type}

namespace VRAdminService

def setSystemNode (mVRService : Option (VRManager S β)) (s : S) (pathname freq : Option JString) :
    Option (S × Int32) :=
  match mVRService with
  | none => some (s, -1)
  | some vr => if pathname = none then some (s, -1) else vr.setSystemNode s pathname freq

def setProperty (mVRService : Option (VRManager S β)) (s : S) (key value : Option JString) :
    Option (S × Int32) :=
  match mVRService with
  | none => some (s, -1)
  | some vr => if key = none then some (s, -1) else vr.setProperty s key value

end VRAdminService

/-- What a call of the stub on its own setters leaves in vrserver; its result is
ignored, and an abort of the caller leaves vrserver as it is. -/
def perform (mVRService : Option (VRManager S β)) (s : S) : ServiceEvent M → S
  | .setProperty key value =>
      ((VRAdminService.setProperty mVRService s (some key) (some value)).map Prod.fst).getD s
  | .setSystemNode pathname freq =>
      ((VRAdminService.setSystemNode mVRService s (some pathname) (some freq)).map Prod.fst).getD s
  | _ => s

end Setters

/-- The stub and vrserver. -/
structure VRMode (M ι β : Type) where
  admin : VRAdminService M
  native : VRNativeService ι β

section Mode

variable {M ι β P : Type}

def vrMode [DecidableEq M] (mVRService : Option (VRManager (VRNativeService ι β) β)) :
    Machine (VRMode M ι β) (ServiceInput M) (ServiceEvent M) where
  step s i :=
    let r := adminService.step s.admin i
    (⟨r.1, r.2.foldl (perform mVRService) s.native⟩, r.2)

/-- The bytes that vrserver receives for a Java string. -/
def nativeText (s : JString) : Bytes := cstr (cstr s.utfChars)

/-- The content of the node named by `MSM_CMD_AUTOREFRESH`. -/
def VRMode.autorefresh (s : VRMode M ι β) : Option Bytes :=
  (s.native.files.lookup (nativeText MSM_CMD_AUTOREFRESH)).map s.native.files.content

def VRMode.gralloc (s : VRMode M ι β) : Bytes :=
  s.native.properties (nativeText VR_GRALLOC_PROPERTY)

/-- The two settings agree. -/
def VRMode.Agrees (s : VRMode M ι β) : Prop := s.autorefresh = some s.gralloc

instance [DecidableEq β] (s : VRMode M ι β) : Decidable s.Agrees :=
  inferInstanceAs (Decidable (_ = _))

/-- A write to a node that the stub requests comes back with `NO_ERROR`. -/
def ServiceEvent.Passes (mVRService : Option (VRManager (VRNativeService ι β) β))
    (s : VRNativeService ι β) : ServiceEvent M → Prop
  | .setSystemNode pathname freq =>
      ∃ s', VRAdminService.setSystemNode mVRService s (some pathname) (some freq) = some (s', 0)
  | _ => True

/-- Every write that the calls request passes, each in the state that the calls before
it leave. -/
def WritesPass (mVRService : Option (VRManager (VRNativeService ι β) β)) :
    VRNativeService ι β → List (ServiceEvent M) → Prop
  | _, [] => True
  | s, e :: rest => e.Passes mVRService s ∧ WritesPass mVRService (perform mVRService s e) rest

/-- The step asks for no setting: nobody enters or leaves, and no monitor dies that is
counted as the last. -/
def Unasked (s : VRAdminService M) : ServiceInput M → Prop
  | .registerMonitor _ _ => True
  | .binderDied _ => s.mClientCount ≠ 1
  | .activityEnter | .activityLeave => False

instance (s : VRAdminService M) (i : ServiceInput M) : Decidable (Unasked s i) :=
  match i with
  | .registerMonitor _ _ => isTrue trivial
  | .binderDied _ => inferInstanceAs (Decidable (_ ≠ _))
  | .activityEnter | .activityLeave => isFalse id

/-- The value that a step asks for both settings. -/
def settingOf (s : VRAdminService M) : ServiceInput M → Option String
  | .registerMonitor _ _ => none
  | .binderDied _ => if s.mClientCount - 1 = 0 then some "0" else none
  | .activityEnter => some "1"
  | .activityLeave => some "0"

theorem step_performs [DecidableEq M] (mVRService : Option (VRManager (VRNativeService ι β) β))
    (s : VRMode M ι β) (i : ServiceInput M) :
    ((vrMode mVRService).step s i).1.native =
      ((settingOf s.admin i).elim [] (applySettings M)).foldl (perform mVRService) s.native := by
  cases i with
  | registerMonitor monitor links =>
      show (adminService.step s.admin (.registerMonitor monitor links)).2.foldl _ _ = _
      rw [step_registerMonitor]
      rcases s.admin.registerMonitor_events monitor links with hnone | hfailed
      · rw [hnone]
        rfl
      · rw [hfailed.2]
        rfl
  | binderDied m =>
      show (adminService.step s.admin (.binderDied m)).2.foldl _ _ = _
      rw [step_binderDied, settingOf]
      split
      · rfl
      · rfl
  | activityEnter => rfl
  | activityLeave => rfl

theorem settingOf_off {s : VRAdminService M} {i : ServiceInput M} (hi : i ≠ .activityEnter) :
    settingOf s i = none ∨ settingOf s i = some "0" := by
  cases i with
  | registerMonitor monitor links => exact Or.inl rfl
  | binderDied m =>
      by_cases hzero : s.mClientCount - 1 = 0
      · exact Or.inr (if_pos hzero)
      · exact Or.inl (if_neg hzero)
  | activityEnter => exact (hi rfl).elim
  | activityLeave => exact Or.inr rfl

theorem settingOf_eq_none_iff {s : VRAdminService M} {i : ServiceInput M} :
    settingOf s i = none ↔ Unasked s i := by
  cases i with
  | registerMonitor monitor links => exact iff_of_true rfl trivial
  | binderDied m =>
      have hone : s.mClientCount - 1 = 0 ↔ s.mClientCount = 1 := by omega
      simp [settingOf, Unasked, hone]
  | activityEnter => exact iff_of_false (by simp [settingOf]) id
  | activityLeave => exact iff_of_false (by simp [settingOf]) id

/-- The values that the stub writes. -/
def settingValues : List String := ["0", "1"]

theorem settingOf_mem {s : VRAdminService M} {i : ServiceInput M} {value : String}
    (h : settingOf s i = some value) : value ∈ settingValues := by
  by_cases hi : i = .activityEnter
  · subst hi
    cases h
    exact List.mem_cons_of_mem _ List.mem_cons_self
  · rcases settingOf_off hi with hnone | hzero
    · rw [hnone] at h
      cases h
    · rw [hzero] at h
      cases h
      exact List.mem_cons_self

/-! ## The node is not in the white list -/

theorem autorefresh_not_nodePath : ¬ NodePath (nativeText MSM_CMD_AUTOREFRESH) := by
  decide +kernel

section Steps

variable [DecidableEq ι] {kernel : Kernel ι β} {Unread : P → List (ParcelValue β) → Prop}
  {env : StubEnv P β} {remote : Transact (VRNativeService ι β) P}

/-- The calls by which the stub writes the two settings. -/
def settingCalls (value : String) : List (NativeCall β) :=
  [.setProperty (cstr VR_GRALLOC_PROPERTY.utfChars) (cstr (JString.lit value).utfChars),
    .setSystemNode (cstr MSM_CMD_AUTOREFRESH.utfChars) (cstr (JString.lit value).utfChars)]

/-- vrserver is registered and answers the calls for the settings, and the property can
be set to the values. -/
structure Serving (kernel : Kernel ι β) (Unread : P → List (ParcelValue β) → Prop)
    (env : StubEnv P β) (remote : Transact (VRNativeService ι β) P) : Prop where
  fifo : env.ops.Fifo Unread
  delivers : Delivers env (vrNativeService kernel) remote
  answers : ∀ s, ∀ value ∈ settingValues, ∀ c ∈ settingCalls (β := β) value,
    (remote s c.code (c.data env.ops)).2.1 = 0
  sets : ∀ s, ∀ value ∈ settingValues,
    ¬ kernel.propertySet s (nativeText VR_GRALLOC_PROPERTY) (nativeText (JString.lit value)) < 0

/-- The `VRManager` whose native methods find this remote service. -/
def managerOf (ops : ParcelOps P β) (remote : Transact (VRNativeService ι β) P) :
    Option (VRManager (VRNativeService ι β) β) :=
  some ⟨some (bpVRNativeService ops remote)⟩

theorem perform_setProperty (h : Serving kernel Unread env remote) (s : VRNativeService ι β)
    {value : String} (hvalue : value ∈ settingValues) :
    perform (M := M) (managerOf env.ops remote) s
        (.setProperty VR_GRALLOC_PROPERTY (JString.lit value)) =
      s.setProperties (nativeText VR_GRALLOC_PROPERTY) (nativeText (JString.lit value)) := by
  have hcall := bp_invoke_delivered h.fifo h.delivers
    (h.answers s value hvalue _ List.mem_cons_self)
  have hstate := congrArg Prod.fst hcall
  exact hstate.trans (setProperty_state kernel s (h.sets s value hvalue))

/-- The node is not in the white list. -/
theorem setSystemNode_autorefresh (h : Serving kernel Unread env remote)
    (s : VRNativeService ι β) {value : String} (hvalue : value ∈ settingValues) :
    ∃ code, code ≠ 0 ∧
      VRAdminService.setSystemNode (managerOf env.ops remote) s (some MSM_CMD_AUTOREFRESH)
        (some (JString.lit value)) = some (s, code) := by
  have hcall := bp_invoke_delivered h.fifo h.delivers
    (h.answers s value hvalue _ (List.mem_cons_of_mem _ List.mem_cons_self))
  have hstate := congrArg Prod.fst hcall
  have hcode := congrArg (fun r => r.2.1) hcall
  refine ⟨_, ?_, congrArg some (Prod.ext ?_ hcode)⟩
  · show (setSystemNode _ _ _ _).1 ≠ 0
    rw [setSystemNode_refused autorefresh_not_nodePath]
    dsimp only
    split <;> decide
  · exact hstate.trans (setSystemNode_state_of_refused kernel s autorefresh_not_nodePath _)

theorem perform_settings (h : Serving kernel Unread env remote) (s : VRNativeService ι β)
    {value : String} (hvalue : value ∈ settingValues) :
    (applySettings M value).foldl (perform (managerOf env.ops remote)) s =
      s.setProperties (nativeText VR_GRALLOC_PROPERTY) (nativeText (JString.lit value)) := by
  obtain ⟨code, -, hnode⟩ := setSystemNode_autorefresh h
    (s.setProperties (nativeText VR_GRALLOC_PROPERTY) (nativeText (JString.lit value))) hvalue
  rw [applySettings, List.foldl_cons, List.foldl_cons, List.foldl_nil,
    perform_setProperty h s hvalue, perform, hnode]
  rfl

variable [DecidableEq M]

/-- All that a step does to vrserver: the property gets the value, the node nothing. -/
theorem step_native (h : Serving kernel Unread env remote) (s : VRMode M ι β)
    (i : ServiceInput M) :
    ((vrMode (managerOf env.ops remote)).step s i).1.native =
      (settingOf s.admin i).elim s.native fun value =>
        s.native.setProperties (nativeText VR_GRALLOC_PROPERTY)
          (nativeText (JString.lit value)) := by
  rw [step_performs]
  cases hsetting : settingOf s.admin i with
  | none => rfl
  | some value => exact perform_settings h s.native (settingOf_mem hsetting)

theorem step_autorefresh (h : Serving kernel Unread env remote) (s : VRMode M ι β)
    (i : ServiceInput M) :
    ((vrMode (managerOf env.ops remote)).step s i).1.autorefresh = s.autorefresh := by
  unfold VRMode.autorefresh
  rw [step_native h]
  cases settingOf s.admin i with
  | none => rfl
  | some value => rfl

theorem step_gralloc (h : Serving kernel Unread env remote) (s : VRMode M ι β)
    (i : ServiceInput M) :
    ((vrMode (managerOf env.ops remote)).step s i).1.gralloc =
      (settingOf s.admin i).elim s.gralloc fun value => nativeText (JString.lit value) := by
  unfold VRMode.gralloc
  rw [step_native h]
  cases settingOf s.admin i with
  | none => rfl
  | some value => simp [VRNativeService.setProperties]

theorem step_gralloc_enter (h : Serving kernel Unread env remote) (s : VRMode M ι β) :
    ((vrMode (managerOf env.ops remote)).step s .activityEnter).1.gralloc = ascii "1" :=
  step_gralloc h s .activityEnter

theorem step_gralloc_off (h : Serving kernel Unread env remote) {s : VRMode M ι β}
    (hoff : s.gralloc = ascii "0") {i : ServiceInput M} (hi : i ≠ .activityEnter) :
    ((vrMode (managerOf env.ops remote)).step s i).1.gralloc = ascii "0" := by
  rw [step_gralloc h]
  rcases settingOf_off hi with hnone | hzero
  · rw [hnone]
    exact hoff
  · rw [hzero]
    rfl

/-! ## Whole runs -/

theorem run_autorefresh (h : Serving kernel Unread env remote) (s : VRMode M ι β)
    (inputs : List (ServiceInput M)) :
    ((vrMode (managerOf env.ops remote)).run s inputs).1.autorefresh = s.autorefresh := by
  induction inputs generalizing s with
  | nil => rfl
  | cons i rest ih => rw [Machine.run_cons, ih, step_autorefresh h]

theorem run_gralloc_off (h : Serving kernel Unread env remote) {s : VRMode M ι β}
    (hoff : s.gralloc = ascii "0") {inputs : List (ServiceInput M)}
    (hinputs : .activityEnter ∉ inputs) :
    ((vrMode (managerOf env.ops remote)).run s inputs).1.gralloc = ascii "0" := by
  induction inputs generalizing s with
  | nil => exact hoff
  | cons i rest ih =>
      simp only [List.mem_cons, not_or] at hinputs
      rw [Machine.run_cons]
      exact ih (step_gralloc_off h hoff (Ne.symm hinputs.1)) hinputs.2

theorem writesPass_iff (h : Serving kernel Unread env remote) (s : VRMode M ι β)
    (i : ServiceInput M) :
    WritesPass (managerOf env.ops remote) s.native (adminService.step s.admin i).2 ↔
      Unasked s.admin i := by
  have hasked {value : String} (hvalue : value ∈ settingValues) (event : ServiceEvent M)
      (hevent : ∀ native : VRNativeService ι β,
        perform (managerOf env.ops remote) native event = native) :
      ¬ WritesPass (managerOf env.ops remote) s.native (event :: applySettings M value) := by
    rintro ⟨-, -, hpass, -⟩
    obtain ⟨code, hcode, hnode⟩ := setSystemNode_autorefresh h _ hvalue
    obtain ⟨s', hzero⟩ := hpass
    rw [hnode] at hzero
    exact hcode (congrArg Prod.snd (Option.some.inj hzero))
  cases i with
  | registerMonitor monitor links =>
      refine iff_of_true ?_ trivial
      rw [step_registerMonitor]
      rcases s.admin.registerMonitor_events monitor links with hnone | hfailed
      · rw [hnone]
        exact ⟨trivial, trivial⟩
      · rw [hfailed.2]
        exact ⟨trivial, trivial, trivial⟩
  | binderDied m =>
      have hone : s.admin.mClientCount - 1 = 0 ↔ s.admin.mClientCount = 1 := by omega
      rw [step_binderDied]
      by_cases hlast : s.admin.mClientCount = 1
      · rw [if_pos (hone.mpr hlast)]
        exact iff_of_false (hasked List.mem_cons_self _ fun _ => rfl) fun hne => hne hlast
      · rw [if_neg (mt hone.mp hlast)]
        exact iff_of_true ⟨trivial, trivial⟩ hlast
  | activityEnter =>
      exact iff_of_false
        (hasked (List.mem_cons_of_mem _ List.mem_cons_self) .activityEnter fun _ => rfl) id
  | activityLeave => exact iff_of_false (hasked List.mem_cons_self .activityLeave fun _ => rfl) id

/-- Started with both settings off: every write that a run requests passes and leaves the
node with the value of the property exactly when it requests none, since each write to
the node is refused; and the two values agree throughout exactly when nobody enters. -/
theorem vr_mode_agrees (h : Serving kernel Unread env remote) {s : VRMode M ι β}
    (hprop : s.gralloc = ascii "0") (hnode : s.autorefresh = some (ascii "0"))
    (inputs : List (ServiceInput M)) :
    ((vrMode (managerOf env.ops remote)).Admits
        (fun s _ i =>
          WritesPass (managerOf env.ops remote) s.native (adminService.step s.admin i).2 ∧
            ((vrMode (managerOf env.ops remote)).step s i).1.Agrees) s [] inputs ↔
      (vrMode (managerOf env.ops remote)).Admits (fun s _ i => Unasked s.admin i) s [] inputs) ∧
    ((∀ done, done <+: inputs → ((vrMode (managerOf env.ops remote)).run s done).1.Agrees) ↔
      .activityEnter ∉ inputs) := by
  have hnodes : ∀ done,
      ((vrMode (managerOf env.ops remote)).run s done).1.autorefresh = some (ascii "0") :=
    fun done => (run_autorefresh h s done).trans hnode
  refine ⟨?_, ?_⟩
  · have hquiet (s : VRMode M ι β) (i : ServiceInput M) (hi : Unasked s.admin i) :
        ((vrMode (managerOf env.ops remote)).step s i).1.native = s.native := by
      rw [step_native h, settingOf_eq_none_iff.mpr hi]
      rfl
    have hkept (s : VRMode M ι β) (i : ServiceInput M) (hs : s.Agrees) (hi : Unasked s.admin i) :
        ((vrMode (managerOf env.ops remote)).step s i).1.Agrees := by
      unfold VRMode.Agrees VRMode.autorefresh VRMode.gralloc
      rw [hquiet s i hi]
      exact hs
    apply Machine.admits_congr (I := fun s _ => s.Agrees)
    · intro s log i hs
      exact (and_congr_left' (writesPass_iff h s i)).trans (and_iff_left_of_imp (hkept s i hs))
    · exact fun s log i => hkept s i
    · rw [VRMode.Agrees, hnode, hprop]
  · constructor
    · intro hall henter
      obtain ⟨before, after, hsplit⟩ := List.append_of_mem henter
      have hdone : before ++ [.activityEnter] <+: inputs := ⟨after, by rw [hsplit]; simp⟩
      have hagree := hall _ hdone
      have hon : ((vrMode (managerOf env.ops remote)).run s
          (before ++ [.activityEnter])).1.gralloc = ascii "1" := by
        rw [Machine.run_append]
        exact step_gralloc_enter h _
      rw [VRMode.Agrees, hnodes, hon] at hagree
      exact absurd hagree (by decide)
    · intro hnever done hdone
      have hoff := run_gralloc_off h hprop fun hmem => hnever (hdone.subset hmem)
      rw [VRMode.Agrees, hnodes, hoff]

end Steps

/-! ## One device -/

/-- The only file is the node, a register; every call of the kernel succeeds. -/
def quietKernel : Kernel Unit Unit where
  node _ _ := ⟨true, some 1, []⟩
  popen s _ := (s, some [])
  propertySet _ _ _ := 0
  schedSetscheduler _ _ _ _ := (0, 0)

def quietStart : VRMode Nat Unit Unit where
  admin := VRAdminService.start
  native :=
    { files :=
        { lookup := fun p => if p = nativeText MSM_CMD_AUTOREFRESH then some () else none
          content := fun _ => ascii "0"
          stored := fun _ _ accepted => accepted }
      properties := fun _ => ascii "0"
      mIPostEvent := none }

def quietRemote : Transact (VRNativeService Unit Unit) (List (ParcelValue Unit)) :=
  deliver listStub (vrNativeService quietKernel)

theorem quiet_serving : Serving quietKernel Eq listStub quietRemote where
  fifo := listParcel_fifo Unit
  delivers := deliver_delivers listStub (vrNativeService quietKernel)
  answers s _ _ c _ := deliver_status (listParcel_fifo Unit) (vrNativeService quietKernel) s c
  sets _ _ _ := by
    show ¬ (0 : Int32) < 0
    decide

/-- Two clients come and one goes; then the other one leaves VR mode. -/
theorem vr_mode_agrees_leave :
    let m := vrMode (managerOf listStub.ops quietRemote)
    m.Admits
      (fun s _ i =>
        WritesPass (managerOf listStub.ops quietRemote) s.native
            (adminService.step s.admin i).2 ∧ (m.step s i).1.Agrees)
      quietStart [] [.registerMonitor (some 3) true, .registerMonitor (some 4) true, .binderDied 3] ∧
    (m.run quietStart [.registerMonitor (some 3) true, .activityLeave, .binderDied 3]).1.Agrees :=
  ⟨(vr_mode_agrees quiet_serving rfl (by decide +kernel) _).1.mpr (by decide +kernel),
    (vr_mode_agrees quiet_serving rfl (by decide +kernel) _).2.mpr (by decide) _
      (List.prefix_refl _)⟩

/-- One enter sets the property and leaves the node. -/
theorem vr_mode_agrees_fails :
    ¬ ∀ (inputs : List (ServiceInput Nat)) (done : List (ServiceInput Nat)), done <+: inputs →
      ((vrMode (managerOf listStub.ops quietRemote)).run quietStart done).1.Agrees := by
  intro hall
  exact absurd (hall [.activityEnter] [.activityEnter] (List.prefix_refl _)) (by decide +kernel)

end Mode

end VRAdmin
