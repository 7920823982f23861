import VRAdmin.Service.Device

/-! # A property as a register

`setProperty` and `getProperty` over all layers, for one key and any Java strings. A
write that reports success replaces the value; one that reports an error may have
been made or not, so it only adds a value that the property may have. A command that
a client hands to vrserver could set the property as well; the runs here have none
that does.
-/

namespace VRAdmin

open Foundation

section Register

variable {M : Type}

/-- The write to the key that an event reports, with its result. -/
def DeviceEvent.writes (key : JString) : DeviceEvent M → Option (JString × Int32)
  | .applied (.setProperty k v) result => if k = key then some (v, result) else none
  | .answered (.setProperty (some k) (some v)) (.number result) =>
      if k = key then some (v, result) else none
  | _ => none

/-- The values that the property may have after one more event. -/
def possible (key : JString) (values : List JString) (e : DeviceEvent M) : List JString :=
  match e.writes key with
  | none => values
  | some (v, result) => if result < 0 then v :: values else [v]

/-- The values that the property may have after a history. -/
def register (key initial : JString) (log : List (DeviceEvent M)) : List JString :=
  log.foldl (possible key) [initial]

variable {S β ι P : Type} [DecidableEq ι]

def PROPERTY_VALUE_MAX : Nat := 92

/-- `property_set` refuses values that are too long. -/
def RefusesLong (kernel : Kernel ι β) : Prop :=
  ∀ s k v, ¬ kernel.propertySet s k v < 0 → v.length < PROPERTY_VALUE_MAX

/-- The property has one of these values. -/
def HasOneOf (key : JString) (values : List JString) (s : VRNativeService ι β) : Prop :=
  ∃ v ∈ values, s.properties key.utfChars = v.utfChars ∧ v.utfChars.length < PROPERTY_VALUE_MAX

/-- The property is as it was. -/
def Keeps (key : JString) (s s' : VRNativeService ι β) : Prop :=
  s'.properties key.utfChars = s.properties key.utfChars

omit [DecidableEq ι] in
theorem HasOneOf.keeps {key : JString} {values : List JString} {s s' : VRNativeService ι β}
    (h : HasOneOf key values s) (hkeeps : Keeps key s s') : HasOneOf key values s' := by
  obtain ⟨v, hv, hprop, hlen⟩ := h
  exact ⟨v, hv, hkeeps.trans hprop, hlen⟩

/-! ## One call of the service object -/

/-- The call does not set the property: it is no write to the key, and no command that
passes the check and sets it. -/
def NativeCall.Spares (kernel : Kernel ι β) (key : JString) (s : VRNativeService ι β) :
    NativeCall β → Prop
  | .setProperty k _ => cstr k ≠ key.utfChars
  | .systemCall cmd =>
      checkSyscallPerm (some cmd) = true → Keeps key s (kernel.popen s (cstr cmd)).1
  | _ => True

variable {kernel : Kernel ι β} {key : JString}

omit [DecidableEq ι] in
theorem systemCall_keeps {s : VRNativeService ι β} {cmd : String8} (result : String8)
    (h : NativeCall.Spares kernel key s (.systemCall cmd)) :
    Keeps key s (systemCall kernel.popen s cmd result).1.1 := by
  unfold systemCall
  by_cases hperm : checkSyscallPerm (some cmd) = true
  · have hkept := h hperm
    simp only [hperm, Bool.not_true, Bool.false_eq_true, if_false]
    cases hopen : kernel.popen s (cstr cmd) with
    | mk s' output =>
        rw [hopen] at hkept
        cases output with
        | none => exact hkept
        | some stream => exact hkept
  · rw [Bool.not_eq_true] at hperm
    simp only [hperm, Bool.not_false, if_true]
    rfl

theorem invoke_keeps (s : VRNativeService ι β) {c : NativeCall β} (hc : c.Spares kernel key s) :
    Keeps key s ((vrNativeService kernel).invoke s [] c).1 := by
  cases c with
  | getSystemNode path => rfl
  | setSystemNode path value => rfl
  | systemCall cmd => exact systemCall_keeps [] hc
  | getProperty k =>
      show Keeps key s (VRNativeService.getProperty s k []).1
      dsimp only [VRNativeService.getProperty]
      split <;> rfl
  | setProperty k v =>
      show Keeps key s (VRNativeService.setProperty kernel s k v).1
      dsimp only [VRNativeService.setProperty]
      split
      · rfl
      · exact if_neg (Ne.symm hc)
  | setThreadScheduler tid policy pri => rfl
  | setPostEventObj obj => rfl

/-- After a write of the value the property has it. -/
def Made (key v : JString) (s : VRNativeService ι β) : Prop :=
  s.properties key.utfChars = v.utfChars ∧ v.utfChars.length < PROPERTY_VALUE_MAX

/-- What a write may do: report an error and make the write or not, or make it. -/
def WriteOutcome (key v : JString) (s s' : VRNativeService ι β) (result : Int32) : Prop :=
  (result < 0 ∧ (s' = s ∨ Made key v s')) ∨ Made key v s'

omit [DecidableEq ι] in
theorem HasOneOf.write {values : List JString} {v : JString} {s s' : VRNativeService ι β}
    {result : Int32} (h : HasOneOf key values s) (hw : WriteOutcome key v s s' result) :
    HasOneOf key (if result < 0 then v :: values else [v]) s' := by
  by_cases hresult : result < 0
  · rw [if_pos hresult]
    have hmade : Made key v s' → HasOneOf key (v :: values) s' := fun hmade =>
      ⟨v, List.mem_cons_self, hmade⟩
    rcases hw with ⟨-, rfl | hw⟩ | hw
    · obtain ⟨w, hmem, hprop⟩ := h
      exact ⟨w, List.mem_cons_of_mem v hmem, hprop⟩
    · exact hmade hw
    · exact hmade hw
  · rw [if_neg hresult]
    rcases hw with ⟨herror, -⟩ | hw
    · exact (hresult herror).elim
    · exact ⟨v, List.mem_singleton_self v, hw⟩

theorem invoke_setProperty (hlong : RefusesLong kernel) (s : VRNativeService ι β)
    (key v : JString) :
    let r := (vrNativeService kernel).invoke s [] (.setProperty key.utfChars v.utfChars)
    WriteOutcome key v s r.1 r.2.1 := by
  have hkey := cstr_eq_self key.utfChars_noNul
  have hvalue := cstr_eq_self v.utfChars_noNul
  have hrun : (vrNativeService kernel).invoke s [] (.setProperty key.utfChars v.utfChars) =
      if kernel.propertySet s key.utfChars v.utfChars < 0 then (s, -1, [])
      else (s.setProperties key.utfChars v.utfChars,
        kernel.propertySet s key.utfChars v.utfChars, []) := by
    simp only [IVRNativeService.invoke, vrNativeService, VRNativeService.setProperty, hkey, hvalue]
    split <;> rfl
  dsimp only
  rw [hrun]
  split
  · have herror : (-1 : Int32) < 0 := by decide
    exact Or.inl ⟨herror, Or.inl rfl⟩
  · next hset => exact Or.inr ⟨if_pos rfl, hlong s _ _ hset⟩

/-! ## One call under its fate -/

variable {env : StubEnv P β} {fate : VRNativeService ι β → NativeCall β → Fate}

omit [DecidableEq ι] in
theorem decoded_spares {s : VRNativeService ι β} {c : NativeCall β}
    (hc : c.Spares kernel key s) : (BnVRNativeService.decoded env c).Spares kernel key s := by
  cases c <;> exact hc

theorem fated_keeps (s : VRNativeService ι β) {c : NativeCall β} (hc : c.Spares kernel key s) :
    Keeps key s ((((vrNativeService kernel).received env).fated fate).invoke s [] c).1 := by
  have hrun : Keeps key s (((vrNativeService kernel).received env).invoke s [] c).1 := by
    rw [IVRNativeService.received_invoke]
    exact invoke_keeps s (decoded_spares hc)
  rw [IVRNativeService.fated_invoke, IVRNativeService.underFate]
  cases fate s c with
  | answered => exact hrun
  | failed status error executed =>
      cases executed with
      | true => exact hrun
      | false => rfl

theorem fated_setProperty (env : StubEnv P β) (fate : VRNativeService ι β → NativeCall β → Fate)
    (hlong : RefusesLong kernel) (s : VRNativeService ι β) (key v : JString) :
    let r := (((vrNativeService kernel).received env).fated fate).invoke s []
      (.setProperty key.utfChars v.utfChars)
    WriteOutcome key v s r.1 r.2.1 := by
  have hrun := invoke_setProperty hlong s key v
  dsimp only at hrun ⊢
  rw [IVRNativeService.fated_invoke, IVRNativeService.underFate,
    IVRNativeService.received_invoke]
  show WriteOutcome key v s _ _
  cases fate s (.setProperty key.utfChars v.utfChars) with
  | answered => exact hrun
  | failed status error executed =>
      cases executed with
      | true =>
          rcases hrun with ⟨-, hmay⟩ | hmade
          · exact Or.inl ⟨error, hmay⟩
          · exact Or.inr hmade
      | false => exact Or.inl ⟨error, Or.inl rfl⟩

/-! ## One call of the process -/

/-- No service, or the service object with its stub under some fate. -/
def DirectService (kernel : Kernel ι β) (env : StubEnv P β)
    (vr : Option (IVRNativeService (VRNativeService ι β) β)) : Prop :=
  ∀ x, vr = some x → ∃ fate, x = ((vrNativeService kernel).received env).fated fate

variable {vr : Option (IVRNativeService (VRNativeService ι β) β)}

/-- Without a service a native method leaves everything as it is. -/
theorem direct_keeps (hvr : DirectService kernel env vr) (s : VRNativeService ι β)
    {c : NativeCall β} (hc : c.Spares kernel key s) :
    Keeps key s (vr.elim s fun x => (x.invoke s [] c).1) := by
  cases vr with
  | none => rfl
  | some x =>
      obtain ⟨fate, rfl⟩ := hvr x rfl
      exact fated_keeps s hc

theorem setProperty_outcome (hlong : RefusesLong kernel) (hvr : DirectService kernel env vr)
    {s s' : VRNativeService ι β} {v : JString} {result : Int32}
    (h : VRAdminService.setProperty (some ⟨vr⟩) s (some key) (some v) = some (s', result)) :
    WriteOutcome key v s s' result := by
  cases vr with
  | none =>
      obtain ⟨rfl, rfl⟩ := Prod.mk.inj (Option.some.inj h)
      have herror : (-1 : Int32) < 0 := by decide
      exact Or.inl ⟨herror, Or.inl rfl⟩
  | some x =>
      obtain ⟨fate, rfl⟩ := hvr x rfl
      have hwrite := fated_setProperty env fate hlong s key v
      have hkey := cstr_eq_self key.utfChars_noNul
      have hvalue := cstr_eq_self v.utfChars_noNul
      have hrun : (((vrNativeService kernel).received env).fated fate).setProperty s
          (cstr key.utfChars) (cstr v.utfChars) = (s', result) := Option.some.inj h
      rw [hkey, hvalue] at hrun
      simp only [IVRNativeService.invoke, hrun] at hwrite
      exact hwrite

theorem setProperty_other (hvr : DirectService kernel env vr) {s s' : VRNativeService ι β}
    {k : JString} (hk : k ≠ key) {v : Option JString} {result : Int32}
    (h : VRAdminService.setProperty (some ⟨vr⟩) s (some k) v = some (s', result)) :
    Keeps key s s' := by
  cases v with
  | none => cases h
  | some v =>
      have hc : NativeCall.Spares kernel key s
          (.setProperty (cstr k.utfChars) (cstr v.utfChars)) := by
        intro hsets
        have htext : nativeText k = key.utfChars := hsets
        rw [nativeText_eq] at htext
        exact hk (JString.utfChars_injective htext)
      have hstate : (vr.elim s fun x => (x.invoke s []
          (.setProperty (cstr k.utfChars) (cstr v.utfChars))).1) = s' := by
        cases vr <;> exact congrArg Prod.fst (Option.some.inj h)
      exact hstate ▸ direct_keeps hvr s hc

theorem setSystemNode_keeps (hvr : DirectService kernel env vr) {s : VRNativeService ι β}
    {path value : Option JString} {r : VRNativeService ι β × Int32}
    (h : VRAdminService.setSystemNode (some ⟨vr⟩) s path value = some r) : Keeps key s r.1 := by
  cases path with
  | none =>
      have hstate : s = r.1 := congrArg Prod.fst (Option.some.inj h)
      exact hstate ▸ rfl
  | some path =>
      cases value with
      | none => cases h
      | some value =>
          have hstate : (vr.elim s fun x => (x.invoke s []
              (.setSystemNode (cstr path.utfChars) (cstr value.utfChars))).1) = r.1 := by
            cases vr <;> exact congrArg Prod.fst (Option.some.inj h)
          exact hstate ▸ direct_keeps hvr s trivial

variable {newStringUTF : CString → Option JString}

theorem getText_keeps (hvr : DirectService kernel env vr) (call : String8 → NativeCall β)
    (failed : JString)
    (get : VRManager (VRNativeService ι β) β → VRNativeService ι β → Option JString →
      Option (VRNativeService ι β × Option JString))
    (hget : ∀ (x : Option (IVRNativeService (VRNativeService ι β) β)) s arg,
      (get ⟨x⟩ s (some arg)).map Prod.fst =
        some (x.elim s fun x => (x.invoke s [] (call (cstr arg.utfChars))).1))
    {s : VRNativeService ι β} {arg : Option JString}
    (hc : ∀ text, arg = some text → (call (cstr text.utfChars)).Spares kernel key s)
    {r : VRNativeService ι β × Option JString}
    (h : guardedText failed get (some ⟨vr⟩) s arg = some r) : Keeps key s r.1 := by
  cases arg with
  | none =>
      have hstate : s = r.1 := congrArg Prod.fst (Option.some.inj h)
      exact hstate ▸ rfl
  | some arg =>
      have hstate : (get ⟨vr⟩ s (some arg)).map Prod.fst = some r.1 :=
        congrArg (Option.map Prod.fst) h
      rw [hget] at hstate
      exact Option.some.inj hstate ▸ direct_keeps hvr s (hc arg rfl)

theorem stub_getSystemNode_keeps (hvr : DirectService kernel env vr) {s : VRNativeService ι β}
    {pathname : Option JString} {r : VRNativeService ι β × Option JString}
    (h : VRAdminService.getSystemNode newStringUTF (some ⟨vr⟩) s pathname = some r) :
    Keeps key s r.1 :=
  getText_keeps hvr .getSystemNode [] (fun m s arg => m.getSystemNode newStringUTF s arg)
    (fun x _ _ => by cases x <;> rfl) (fun _ _ => trivial) h

theorem stub_getProperty_keeps (hvr : DirectService kernel env vr) {s : VRNativeService ι β}
    {k : Option JString} {r : VRNativeService ι β × Option JString}
    (h : VRAdminService.getProperty newStringUTF (some ⟨vr⟩) s k = some r) : Keeps key s r.1 :=
  getText_keeps hvr .getProperty [] (fun m s arg => m.getProperty newStringUTF s arg)
    (fun x _ _ => by cases x <;> rfl) (fun _ _ => trivial) h

theorem stub_systemCall_keeps (hvr : DirectService kernel env vr) {s : VRNativeService ι β}
    {cmd : Option JString}
    (hc : ∀ text, cmd = some text →
      NativeCall.Spares kernel key s (.systemCall (cstr text.utfChars)))
    {r : VRNativeService ι β × Option JString}
    (h : VRAdminService.systemCall newStringUTF (some ⟨vr⟩) s cmd = some r) : Keeps key s r.1 :=
  getText_keeps hvr .systemCall (JString.lit "-1")
    (fun m s arg => m.systemCall newStringUTF s arg) (fun x _ _ => by cases x <;> rfl) hc h

/-- The line that a request hands to the native `systemCall`. -/
def AdminRequest.command (bRunning : Bool) : AdminRequest → Option JString
  | .systemCall cmd => cmd
  | .startDownLoad firmware => if bRunning then none else some firmware.cmd
  | .getBoardMode vid pid => some (boardModeCmd vid pid)
  | _ => none

/-- The command that a request hands over does not set the property. -/
def AdminRequest.Spares (kernel : Kernel ι β) (key : JString) (bRunning : Bool)
    (s : VRNativeService ι β) (req : AdminRequest) : Prop :=
  ∀ cmd, req.command bRunning = some cmd →
    NativeCall.Spares kernel key s (.systemCall (cstr cmd.utfChars))

/-- What `setProperty` of the stub leaves, for the key and for others. -/
theorem setProperty_register (hlong : RefusesLong kernel) (hvr : DirectService kernel env vr)
    {s : VRNativeService ι β} {k v : Option JString} {r : VRNativeService ι β × Int32}
    (h : VRAdminService.setProperty (some ⟨vr⟩) s k v = some r)
    {values : List JString} (hvalues : HasOneOf key values s) :
    HasOneOf key
      (possible key values (.answered (.setProperty k v) (.number r.2) : DeviceEvent M)) r.1 := by
  cases k with
  | none =>
      have hstate : s = r.1 := congrArg Prod.fst (Option.some.inj h)
      exact hstate ▸ hvalues
  | some k =>
      cases v with
      | none => cases h
      | some v =>
          by_cases hk : k = key
          · subst hk
            have hwrite := hvalues.write (setProperty_outcome hlong hvr h)
            simpa only [possible, DeviceEvent.writes, if_true] using hwrite
          · have hkept := hvalues.keeps (setProperty_other hvr hk h)
            simpa only [possible, DeviceEvent.writes, if_neg hk] using hkept

/-- A request leaves the property with one of the values that its answer allows. -/
theorem answerRequest_register (hlong : RefusesLong kernel) (hvr : DirectService kernel env vr)
    {bRunning : Bool} {s s' : VRNativeService ι β} {req : AdminRequest} {a : AdminAnswer}
    (hspares : req.Spares kernel key bRunning s)
    (h : answerRequest newStringUTF (some ⟨vr⟩) bRunning s req = some (s', a))
    {values : List JString} (hvalues : HasOneOf key values s) :
    HasOneOf key (possible key values (.answered req a : DeviceEvent M)) s' := by
  have hkeeps {α : Type} {f : α → AdminAnswer} {x : Option (VRNativeService ι β × α)}
      (hx : ∀ r, x = some r → Keeps key s r.1) (h : x.map (Prod.map id f) = some (s', a)) :
      HasOneOf key values s' := by
    obtain ⟨r, hr, hmap⟩ := Option.map_eq_some_iff.mp h
    obtain ⟨rfl, -⟩ := Prod.mk.inj hmap
    exact hvalues.keeps (hx r hr)
  cases req with
  | getSystemNode pathname => exact hkeeps (fun _ => stub_getSystemNode_keeps hvr) h
  | setSystemNode pathname freq => exact hkeeps (fun _ => setSystemNode_keeps hvr) h
  | systemCall cmd => exact hkeeps (fun _ => stub_systemCall_keeps hvr hspares) h
  | getProperty k => exact hkeeps (fun _ => stub_getProperty_keeps hvr) h
  | setProperty k v =>
      obtain ⟨r, hr, hmap⟩ := Option.map_eq_some_iff.mp h
      obtain ⟨rfl, rfl⟩ := Prod.mk.inj hmap
      exact setProperty_register hlong hvr hr hvalues
  | startDownLoad firmware =>
      cases bRunning with
      | true =>
          have hstate : s = s' := congrArg Prod.fst (Option.some.inj h)
          exact hstate ▸ hvalues
      | false => exact hkeeps (fun _ => stub_systemCall_keeps hvr hspares) h
  | getBoardMode vid pid => exact hkeeps (fun _ => stub_systemCall_keeps hvr hspares) h

theorem stubCall_register (hlong : RefusesLong kernel) (hvr : DirectService kernel env vr)
    {s : VRNativeService ι β} (e : ServiceEvent M) {values : List JString}
    (hvalues : HasOneOf key values s) :
    HasOneOf key (((stubCalls (some ⟨vr⟩)).step s e).2.foldl (possible key) values)
      ((stubCalls (some ⟨vr⟩)).step s e).1 := by
  cases e with
  | setProperty k v =>
      cases hset : VRAdminService.setProperty (some ⟨vr⟩) s (some k) (some v) with
      | none => simpa only [stubCalls, ownSetter, hset, List.foldl_nil] using hvalues
      | some r =>
          obtain ⟨s', result⟩ := r
          simp only [stubCalls, ownSetter, hset, List.foldl_cons, List.foldl_nil]
          by_cases hk : k = key
          · subst hk
            have hwrite := hvalues.write (setProperty_outcome hlong hvr hset)
            simpa only [possible, DeviceEvent.writes, if_true] using hwrite
          · have hkept := hvalues.keeps (setProperty_other hvr hk hset)
            simpa only [possible, DeviceEvent.writes, if_neg hk] using hkept
  | setSystemNode path freq =>
      cases hset : VRAdminService.setSystemNode (some ⟨vr⟩) s (some path) (some freq) with
      | none => simpa only [stubCalls, ownSetter, hset, List.foldl_nil] using hvalues
      | some r =>
          obtain ⟨s', result⟩ := r
          simp only [stubCalls, ownSetter, hset, List.foldl_cons, List.foldl_nil]
          exact hvalues.keeps (setSystemNode_keeps hvr hset)
  | registerMonitor monitor => exact hvalues
  | remoteException => exact hvalues
  | binderDied monitor => exact hvalues
  | activityEnter => exact hvalues
  | activityLeave => exact hvalues

theorem stubCalls_register (hlong : RefusesLong kernel) (hvr : DirectService kernel env vr)
    {s : VRNativeService ι β} (events : List (ServiceEvent M)) {values : List JString}
    (hvalues : HasOneOf key values s) :
    HasOneOf key (((stubCalls (some ⟨vr⟩)).run s events).2.foldl (possible key) values)
      ((stubCalls (some ⟨vr⟩)).run s events).1 := by
  induction events generalizing s values with
  | nil => exact hvalues
  | cons e rest ih =>
      rw [Machine.run_cons, List.foldl_append]
      exact ih (stubCall_register hlong hvr e hvalues)

/-! ## Runs -/

theorem onCreate_register (hvr : DirectService kernel env vr)
    (d : Device M (VRNativeService ι β)) (reporter : IVRPostEvent β) {values : List JString}
    (hvalues : HasOneOf key values d.native) :
    HasOneOf key ((d.onCreate newStringUTF vr reporter).2.foldl (possible key) values)
      (d.onCreate newStringUTF vr reporter).1.native := by
  let native := if d.mVRMgr then d.native else nativeSetup vr d.native reporter
  have hsetup : HasOneOf key values native := by
    dsimp only [native]
    split
    · exact hvalues
    · cases vr with
      | none => exact hvalues
      | some x =>
          exact hvalues.keeps
            (direct_keeps hvr d.native (c := .setPostEventObj (some reporter)) trivial)
  have hget : ∀ r, VRManager.getProperty ⟨vr⟩ newStringUTF native
      (some (JString.lit "ro.product.device")) = some r → HasOneOf key values r.1 := by
    intro r hr
    have hstub : VRAdminService.getProperty newStringUTF (some ⟨vr⟩) native
        (some (JString.lit "ro.product.device")) = some r := hr
    exact hsetup.keeps (stub_getProperty_keeps hvr hstub)
  dsimp only [Device.onCreate]
  split
  · exact hsetup
  · next native' device hr => exact hget (native', device) hr

variable [DecidableEq M]

/-- The command of a request, if the step makes one, does not set the property. -/
def DeviceInput.Spares (kernel : Kernel ι β) (key : JString) (d : Device M (VRNativeService ι β))
    (i : DeviceInput M (VRNativeService ι β) β) : Prop :=
  ∀ bRunning req, i.action = .request bRunning req → req.Spares kernel key bRunning d.native

theorem step_register (newStringUTF : CString → Option JString) (hlong : RefusesLong kernel)
    (action : DeviceAction M β) (hvr : DirectService kernel env vr)
    (d : Device M (VRNativeService ι β)) (hspares : (DeviceInput.mk vr action).Spares kernel key d)
    {values : List JString} (hvalues : HasOneOf key values d.native) :
    HasOneOf key ((d.step newStringUTF ⟨vr, action⟩).2.foldl (possible key) values)
      (d.step newStringUTF ⟨vr, action⟩).1.native := by
  cases action with
  | onCreate reporter => exact onCreate_register hvr d reporter hvalues
  | service i =>
      cases hstub : d.mBinder with
      | none => simpa only [Device.step, hstub, List.foldl_nil] using hvalues
      | some admin =>
          simp only [Device.step, hstub]
          exact stubCalls_register hlong hvr _ hvalues
  | request bRunning req =>
      cases hstub : d.mBinder with
      | none => simpa only [Device.step, hstub, List.foldl_nil] using hvalues
      | some admin =>
          simp only [Device.step, hstub, Device.answer]
          split
          · exact hvalues
          · next native a h =>
              exact answerRequest_register hlong hvr (hspares bRunning req rfl) h hvalues
  | setThreadScheduler tid policy pri =>
      cases hstub : d.mBinder with
      | none => simpa only [Device.step, hstub, List.foldl_nil] using hvalues
      | some admin =>
          simp only [Device.step, hstub]
          cases vr with
          | none => exact hvalues
          | some x =>
              exact hvalues.keeps
                (direct_keeps hvr d.native (c := .setThreadScheduler tid policy pri) trivial)

theorem run_register (hlong : RefusesLong kernel)
    {Unread : P → List (ParcelValue β) → Prop} (fifo : env.ops.Fifo Unread)
    (inputs : List (DeviceInput M (VRNativeService ι β) β))
    (h : ∀ i ∈ inputs, i.OverBinder env (vrNativeService kernel))
    (d : Device M (VRNativeService ι β)) (log : List (DeviceEvent M))
    (hspares : (device newStringUTF).Admits (fun d _ i => i.Spares kernel key d) d log inputs)
    {values : List JString} (hvalues : HasOneOf key values d.native) :
    HasOneOf key (((device newStringUTF).run d inputs).2.foldl (possible key) values)
      ((device newStringUTF).run d inputs).1.native := by
  induction inputs generalizing d log values with
  | nil => exact hvalues
  | cons i rest ih =>
      obtain ⟨hfirstSpares, hrestSpares⟩ := hspares
      obtain ⟨fate, hfate⟩ := step_direct newStringUTF fifo (h i (by simp))
      have hvr : DirectService kernel env
          (i.direct ((vrNativeService kernel).received env) fate).getVRService := by
        intro x hx
        obtain ⟨-, -, rfl⟩ := Option.map_eq_some_iff.mp hx
        exact ⟨fate, rfl⟩
      have hstep := step_register newStringUTF hlong i.action hvr d hfirstSpares hvalues
      have hfirst : (device newStringUTF).step d i =
          (device newStringUTF).step d (i.direct ((vrNativeService kernel).received env) fate) :=
        hfate d
      rw [Machine.run_cons, List.foldl_append]
      refine ih (fun j hj => h j (List.mem_cons_of_mem i hj)) _ _ hrestSpares ?_
      rw [hfirst]
      exact hstep

/-! ## Reads -/

omit [DecidableEq ι] in
theorem getProperty_read {values : List JString} {s : VRNativeService ι β}
    (h : HasOneOf key values s) (out : String8) :
    ∃ v ∈ values, (VRNativeService.getProperty s key.utfChars out).2.2 = v.utfChars := by
  obtain ⟨v, hv, hprop, hlen⟩ := h
  have hlen' : v.utfChars.length < 92 := hlen
  have hstatus : ¬ Int32.ofNat v.utfChars.length < 0 := by
    rw [Int32.lt_iff_toInt_lt, Int32.toInt_ofNat_of_lt (by omega)]
    exact Int.not_lt.mpr (Int.natCast_nonneg _)
  refine ⟨v, hv, ?_⟩
  simp only [VRNativeService.getProperty, cstr_eq_self key.utfChars_noNul, hprop, hstatus,
    if_false]

theorem ofMem_utfChars (v : JString) : CString.ofMem v.utfChars = v.text :=
  CString.ext_bytes (cstr_eq_self v.utfChars_noNul)

theorem read_text {S : Type} (hutf : JString.UndoneBy newStringUTF) {x : IVRNativeService S β}
    {s s' : S} {text : Option JString}
    (h : VRAdminService.getProperty newStringUTF (some ⟨some x⟩) s (some key) = some (s', text))
    {v : JString} (hv : (x.getProperty s key.utfChars []).2.2 = v.utfChars) : text = some v := by
  have htext : newStringUTF (CString.ofMem (x.getProperty s (cstr key.utfChars) []).2.2) = text :=
    congrArg Prod.snd (Option.some.inj h)
  rw [cstr_eq_self key.utfChars_noNul, hv, ofMem_utfChars, hutf] at htext
  exact htext.symm

/-- Under any fate the native method gets one of the values, or nothing. -/
theorem fated_getProperty (env : StubEnv P β) (kernel : Kernel ι β)
    (fate : VRNativeService ι β → NativeCall β → Fate) {s : VRNativeService ι β}
    {values : List JString} (hvalues : HasOneOf key values s) :
    let value := ((((vrNativeService kernel).received env).fated fate).getProperty s
      key.utfChars []).2.2
    value = JString.utfChars [] ∨ ∃ v ∈ values, value = v.utfChars := by
  have hcall : (((vrNativeService kernel).received env).fated fate).getProperty s key.utfChars [] =
      ((vrNativeService kernel).received env).underFate fate s (.getProperty key.utfChars) := rfl
  dsimp only
  rw [hcall, IVRNativeService.underFate]
  cases fate s (.getProperty key.utfChars) with
  | answered => exact Or.inr (getProperty_read hvalues [])
  | failed status error executed => exact Or.inl rfl

/-- The value of the last write that a history reports. -/
def lastWritten (key initial : JString) (log : List (DeviceEvent M)) : JString :=
  log.foldl (fun v e => ((e.writes key).map Prod.fst).getD v) initial

omit [DecidableEq M] in
/-- While every write is acknowledged the property has the value written last. -/
theorem register_acknowledged (key initial : JString) (log : List (DeviceEvent M))
    (h : ∀ e ∈ log, ∀ w, e.writes key = some w → ¬ w.2 < 0) :
    register key initial log = [lastWritten key initial log] := by
  unfold register lastWritten
  induction log generalizing initial with
  | nil => rfl
  | cons e rest ih =>
      have hfirst : possible key [initial] e = [((e.writes key).map Prod.fst).getD initial] := by
        unfold possible
        cases hw : e.writes key with
        | none => rfl
        | some w => exact if_neg (h e List.mem_cons_self w hw)
      rw [List.foldl_cons, List.foldl_cons, hfirst]
      exact ih _ fun e' he' => h e' (List.mem_cons_of_mem e he')

omit [DecidableEq ι] in
theorem answered_getProperty {d : Device M (VRNativeService ι β)}
    {vr : Option (IVRNativeService (VRNativeService ι β) β)} {bRunning : Bool}
    {k text : Option JString}
    (h : .answered (.getProperty k) (.text text) ∈
      ((device newStringUTF).step d ⟨vr, .request bRunning (.getProperty k)⟩).2) :
    ∃ s', VRAdminService.getProperty newStringUTF (some ⟨vr⟩) d.native k = some (s', text) := by
  simp only [device, Device.step] at h
  split at h
  · cases h
  · simp only [Device.answer] at h
    split at h
    · simp at h
    · next native a ha =>
        simp only [List.mem_singleton, DeviceEvent.answered.injEq, true_and] at h
        have hmapped : (VRAdminService.getProperty newStringUTF (some ⟨vr⟩) d.native k).map
            (Prod.map id .text) = some (native, a) := ha
        obtain ⟨⟨s', t⟩, ht, hmap⟩ := Option.map_eq_some_iff.mp hmapped
        obtain ⟨-, htext⟩ := Prod.mk.inj hmap
        obtain rfl : t = text := AdminAnswer.text.inj (htext.trans h.symm)
        exact ⟨s', ht⟩

/-- Over a binder that drops requests and loses replies, and as long as no command that
the clients hand to vrserver sets the property, a read whose transaction succeeds, or
whose answer is not empty, gives the initial value or that of some write before it, with
no acknowledged write in between; while all writes are acknowledged it gives the value
written last. -/
theorem property_register {Unread : P → List (ParcelValue β) → Prop}
    (fifo : env.ops.Fifo Unread) (hutf : JString.UndoneBy newStringUTF)
    (hlong : RefusesLong kernel) (d : Device M (VRNativeService ι β)) (initial : JString)
    (hinitial : Made key initial d.native)
    {inputs : List (DeviceInput M (VRNativeService ι β) β)}
    (hinputs : ∀ i ∈ inputs, i.OverBinder env (vrNativeService kernel))
    (hspares : (device newStringUTF).Admits (fun d _ i => i.Spares kernel key d) d [] inputs)
    {remote : Transact (VRNativeService ι β) P}
    (hremote : AtMostOnce env (vrNativeService kernel) remote) (bRunning : Bool)
    {text : Option JString} :
    let r := (device newStringUTF).run d inputs
    .answered (.getProperty (some key)) (.text text) ∈
      ((device newStringUTF).step r.1
        ⟨some (bpVRNativeService env.ops remote), .request bRunning (.getProperty (some key))⟩).2 →
    text ≠ some [] ∨ (remote r.1.native VRACTION_GETATTR
      ((NativeCall.getProperty key.utfChars).data env.ops)).2.1 = 0 →
    (∃ v ∈ register key initial r.2, text = some v) ∧
      ((∀ e ∈ r.2, ∀ w, e.writes key = some w → ¬ w.2 < 0) →
        text = some (lastWritten key initial r.2)) := by
  intro r hanswer hread
  have hvalues : HasOneOf key (register key initial r.2) r.1.native :=
    run_register hlong fifo inputs hinputs d [] hspares
      ⟨initial, List.mem_singleton_self _, hinitial⟩
  obtain ⟨s', hget⟩ := answered_getProperty hanswer
  have hmem : ∃ v ∈ register key initial r.2, text = some v := by
    rcases hread with hne | hok
    · obtain ⟨fate, hfate⟩ := hremote.sameCalls fifo
      have hcall := congrArg (fun p => p.2.2) (hfate r.1.native (.getProperty key.utfChars))
      rcases fated_getProperty env kernel fate hvalues with hnone | ⟨v, hv, hread⟩
      · exact (hne (read_text hutf hget (hcall.trans hnone))).elim
      · exact ⟨v, hv, read_text hutf hget (hcall.trans hread)⟩
    · have hcall := bp_invoke_delivered fifo hremote.delivers
        (c := .getProperty key.utfChars) hok
      obtain ⟨v, hv, hread⟩ := getProperty_read hvalues []
      exact ⟨v, hv, read_text hutf hget ((congrArg (fun p => p.2.2) hcall).trans hread)⟩
  refine ⟨hmem, fun hacked => ?_⟩
  rw [register_acknowledged key initial r.2 hacked] at hmem
  obtain ⟨v, hv, htext⟩ := hmem
  rw [htext, List.mem_singleton.mp hv]

end Register

/-! ## One device -/

/-- Every call of the kernel succeeds, except `property_set` of a value that is too long;
a command sets nothing. -/
def boundedKernel : Kernel Unit Unit :=
  { quietKernel with
    propertySet := fun _ _ value => if value.length < PROPERTY_VALUE_MAX then 0 else -1 }

theorem boundedKernel_refusesLong : RefusesLong boundedKernel := by
  intro s k v h
  by_contra hlen
  have herror : boundedKernel.propertySet s k v = -1 := if_neg hlen
  exact h (herror ▸ by decide)

def boundedRemote : Transact (VRNativeService Unit Unit) (List (ParcelValue Unit)) :=
  faulty listStub (vrNativeService boundedKernel) (fun _ => false) (fun _ => false) (-32)

/-- The replies to writes are lost. -/
def lossyRemote : Transact (VRNativeService Unit Unit) (List (ParcelValue Unit)) :=
  faulty listStub (vrNativeService boundedKernel) (fun _ => false)
    (fun code => code == VRACTION_SETATTR) (-32)

def boundedStart : Device Nat (VRNativeService Unit Unit) :=
  ⟨false, none, { quietStart.native with properties := fun _ => [] }⟩

/-- A write that is reported as failed can be read, also behind a command. -/
theorem property_register_lost :
    let key := JString.lit "k"
    let inputs : List (DeviceInput Nat (VRNativeService Unit Unit) Unit) :=
      [⟨some (bpVRNativeService listStub.ops boundedRemote), .onCreate ⟨()⟩⟩,
        ⟨some (bpVRNativeService listStub.ops lossyRemote),
          .request false (.setProperty (some key) (some [233]))⟩,
        ⟨some (bpVRNativeService listStub.ops boundedRemote),
          .request false (.systemCall (some (JString.lit "dfu-util")))⟩]
    let r := (device JString.newStringUTF).run boundedStart inputs
    ∃ v ∈ register key [] r.2, some [233] = some v := by
  intro key inputs r
  have herror : (-32 : Int32) < 0 := by decide
  have hbounded : AtMostOnce listStub (vrNativeService boundedKernel) boundedRemote :=
    faulty_atMostOnce listStub _ _ _ herror
  have hlossy : AtMostOnce listStub (vrNativeService boundedKernel) lossyRemote :=
    faulty_atMostOnce listStub _ _ _ herror
  have hinputs : ∀ i ∈ inputs, i.OverBinder listStub (vrNativeService boundedKernel) := by
    intro i hi vr hvr
    simp only [inputs, List.mem_cons, List.not_mem_nil, or_false] at hi
    rcases hi with rfl | rfl | rfl
    · exact ⟨boundedRemote, hbounded, (Option.some.inj hvr).symm⟩
    · exact ⟨lossyRemote, hlossy, (Option.some.inj hvr).symm⟩
    · exact ⟨boundedRemote, hbounded, (Option.some.inj hvr).symm⟩
  have hspares (d : Device Nat (VRNativeService Unit Unit))
      (i : DeviceInput Nat (VRNativeService Unit Unit) Unit) : i.Spares boundedKernel key d :=
    fun _ _ _ _ _ _ => rfl
  have hadmits : (device JString.newStringUTF).Admits
      (fun d _ i => i.Spares boundedKernel key d) boundedStart [] inputs :=
    ⟨hspares _ _, hspares _ _, hspares _ _, trivial⟩
  exact (property_register (listParcel_fifo Unit) JString.undoneBy_newStringUTF
    boundedKernel_refusesLong boundedStart [] ⟨rfl, by decide⟩ hinputs hadmits hbounded false
    (List.mem_singleton.mpr rfl) (Or.inl (by decide))).1

end VRAdmin
