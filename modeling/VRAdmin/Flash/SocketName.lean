import VRAdmin.Flash.StartDownLoad
import VRAdmin.Flash.TalkToDfuUtil

/-! # Successive flashes and the socket name

Each call of `startDownLoad` starts a talker of its own, and all talkers make their
server socket under one name. A talker blocks in `accept` until some `dfu-util`
connects and keeps the name until it has closed its sockets; neither `bRunning` nor
the return of the call waits for it.
-/

namespace VRAdmin

open Foundation TalkToDfuUtil

/-- The thread of a talker, named after the call that starts it. -/
inductive Talker (C : Type)
  | absent
  /-- Started, its server socket not made. -/
  | created
  /-- It has the name and is blocked in `accept`. -/
  | waiting
  /-- It has the name and has read these pieces from the client. -/
  | serving (client : C) (pieces : List Piece)
  /-- Its sockets are closed; without a client its server socket was refused. -/
  | ended (session : Option (C × List Piece))

/-- The calls, the talker that holds `com.le.vrotalib`, the talkers, and the calls
whose `dfu-util` has connected. -/
structure Flashes (C : Type) where
  calls : Downloads C
  vrotalib : Option C
  talker : C → Talker C
  connected : C → Bool

/-- A step of a call, of its `dfu-util` or of its talker. -/
inductive FlashInput (C : Type)
  | caller (c : C) (result : JString)
  | bind (t : C)
  | connect (c : C)
  | read (t : C) (piece : Piece)
  | finish (t : C) (ending : Ending)
deriving DecidableEq

inductive FlashEvent (C : Type)
  | caller (e : DownloadEvent C)
  | accepted (t c : C)
  | broadcast (t : C) (percent : Int32)
deriving DecidableEq

section Model

variable {C : Type} [DecidableEq C]

namespace Flashes

def idle : Flashes C := ⟨Downloads.idle, none, fun _ => .absent, fun _ => false⟩

def become (s : Flashes C) (t : C) (k : Talker C) : Flashes C :=
  { s with talker := Function.update s.talker t k }

@[simp] theorem become_self (s : Flashes C) (t : C) (k : Talker C) :
    (s.become t k).talker t = k := by
  simp [become]

theorem become_of_ne {t u : C} (h : u ≠ t) (s : Flashes C) (k : Talker C) :
    (s.become t k).talker u = s.talker u := by
  simp [become, h]

/-- The effect of a call's step on the talkers. -/
def startTalker (s : Flashes C) : DownloadEvent C → Flashes C
  | .talkerStarted c => s.become c .created
  | _ => s

def broadcasts (t : C) (values : List Int32) : List (FlashEvent C) :=
  values.map (.broadcast t)

/-- The `dfu-util` of the call `c` connects to the name that `t` holds. -/
def accept (s : Flashes C) (t c : C) : Flashes C × List (FlashEvent C) :=
  match s.talker t with
  | .waiting =>
      ({ s.become t (.serving c []) with connected := Function.update s.connected c true },
        [.accepted t c])
  | _ => (s, [])

/-- One step. The name is free for the next talker when its holder closes; a
`dfu-util` that finds no waiting talker is not accepted. -/
def step (firmware : C → Firmware) (s : Flashes C) :
    FlashInput C → Flashes C × List (FlashEvent C)
  | .caller c result =>
      let r := (downloads firmware).step s.calls (c, result)
      (r.2.foldl startTalker { s with calls := r.1 }, r.2.map .caller)
  | .bind t =>
      match s.talker t with
      | .created =>
          if s.vrotalib = none then ({ s.become t .waiting with vrotalib := some t }, [])
          else (s.become t (.ended none), broadcasts t (talkWithSocket .refused))
      | _ => (s, [])
  | .connect c =>
      if s.calls.stage c = .flashing ∧ s.connected c = false then
        match s.vrotalib with
        | none => (s, [])
        | some t => s.accept t c
      else (s, [])
  | .read t piece =>
      match s.talker t with
      | .serving c pieces =>
          (s.become t (.serving c (pieces ++ [piece])),
            broadcasts t (receive (readLoop.run start pieces).1 piece).2)
      | _ => (s, [])
  | .finish t _ =>
      match s.talker t with
      | .serving c pieces =>
          ({ s.become t (.ended (some (c, pieces))) with vrotalib := none },
            broadcasts t (onFinally (readLoop.run start pieces).1))
      | _ => (s, [])

end Flashes

def flashes (firmware : C → Firmware) : Machine (Flashes C) (FlashInput C) (FlashEvent C) :=
  ⟨Flashes.step firmware⟩

/-- The values that a talker has broadcast. -/
def heardFrom (t : C) (log : List (FlashEvent C)) : List Int32 :=
  log.filterMap fun
    | .broadcast u percent => if u = t then some percent else none
    | _ => none

/-- The values that a talker broadcasts on the way to where it is. -/
def Talker.said : Talker C → List Int32
  | .serving _ pieces => (readLoop.run start pieces).2
  | .ended none => talkWithSocket .refused
  | .ended (some (_, pieces)) => talkWithSocket (.connected pieces .endOfStream)
  | _ => []

end Model

section Runs

variable {C : Type}

/-- The talker has accepted this client and read these pieces from it. -/
def Talker.Served (k : Talker C) (c : C) (pieces : List Piece) : Prop :=
  k = .serving c pieces ∨ k = .ended (some (c, pieces))

/-- The input is the first step of a call. -/
def FlashInput.Starts (s : Flashes C) : FlashInput C → Prop
  | .caller c _ => s.calls.stage c = .notMade
  | _ => False

/-- Calls do not overlap. -/
def Successive (s : Flashes C) (_log : List (FlashEvent C)) (i : FlashInput C) : Prop :=
  i.Starts s → ∀ c, (s.calls.stage c).inside = false

/-- The `dfu-util` of every call made so far has connected. -/
def Flashes.AllConnected (s : Flashes C) : Prop :=
  ∀ c, s.calls.stage c ≠ .notMade → s.connected c = true

/-- A talker is between `accept` and the end of its session. -/
def Flashes.Serving (s : Flashes C) (t : C) : Prop := ∃ c pieces, s.talker t = .serving c pieces

/-- Calls do not overlap and start when every earlier `dfu-util` has connected, and
no talker makes its server socket while another is serving. -/
def Undisturbed (s : Flashes C) (log : List (FlashEvent C)) (i : FlashInput C) : Prop :=
  Successive s log i ∧ (i.Starts s → s.AllConnected) ∧
    ∀ t, i = .bind t → ∀ u, ¬ s.Serving u

instance [DecidableEq C] [Fintype C] (s : Flashes C) : Decidable s.AllConnected :=
  inferInstanceAs (Decidable (∀ c, s.calls.stage c ≠ .notMade → s.connected c = true))

instance (s : Flashes C) (t : C) : Decidable (s.Serving t) :=
  match h : s.talker t with
  | .serving c pieces => isTrue ⟨c, pieces, h⟩
  | .absent => isFalse fun ⟨_, _, hs⟩ => nomatch h.symm.trans hs
  | .created => isFalse fun ⟨_, _, hs⟩ => nomatch h.symm.trans hs
  | .waiting => isFalse fun ⟨_, _, hs⟩ => nomatch h.symm.trans hs
  | .ended _ => isFalse fun ⟨_, _, hs⟩ => nomatch h.symm.trans hs

instance (s : Flashes C) (i : FlashInput C) : Decidable (i.Starts s) := by
  cases i <;> unfold FlashInput.Starts <;> infer_instance

instance [Fintype C] (s : Flashes C) (log : List (FlashEvent C)) (i : FlashInput C) :
    Decidable (Successive s log i) :=
  inferInstanceAs (Decidable (i.Starts s → ∀ c, (s.calls.stage c).inside = false))

instance [DecidableEq C] [Fintype C] (s : Flashes C) (log : List (FlashEvent C))
    (i : FlashInput C) : Decidable (Undisturbed s log i) :=
  inferInstanceAs (Decidable (Successive s log i ∧ (i.Starts s → s.AllConnected) ∧
    ∀ t, i = .bind t → ∀ u, ¬ s.Serving u))

/-- Whole frames that announce a size whose percentages do not overflow and end with
the size written. -/
def CompleteReport (pieces : List Piece) : Prop :=
  ∃ f ws, 1 ≤ f ∧ f ≤ 21474836 ∧ (∀ w ∈ ws, w ≤ f) ∧ ws.getLastD 0 = f ∧
    pieces = (f :: ws).map frame

/-! ## What undisturbed runs preserve -/

/-- At or behind the start of its talker. -/
def Stage.started : Stage → Bool
  | .notMade => false
  | .checked => false
  | .marked => false
  | _ => true

theorem Stage.made_of_started {st : Stage} (h : st.started = true) : st ≠ .notMade := by
  rintro rfl
  exact absurd h (by decide)

/-- The client that a talker has accepted. -/
def Talker.client : Talker C → Option C
  | .serving c _ => some c
  | .ended session => session.map Prod.fst
  | _ => none

theorem Talker.client_of_served {k : Talker C} {c : C} {pieces : List Piece}
    (h : k.Served c pieces) : k.client = some c := by
  rcases h with rfl | rfl
  · rfl
  · rfl

/-- Made, and its `dfu-util` has not connected. -/
def Flashes.Pending (s : Flashes C) (c : C) : Prop :=
  s.calls.stage c ≠ .notMade ∧ s.connected c = false

/-- Every `dfu-util` that connected was accepted by the talker of its own call, and
the one call whose `dfu-util` has not is the only one inside. -/
structure Settled (s : Flashes C) : Prop where
  exclusive : Exclusive s.calls
  quiet : ∀ c, (s.calls.stage c).started = false →
    s.talker c = .absent ∧ s.connected c = false
  pending : ∀ c, (s.calls.stage c).started = true → s.connected c = false →
    s.talker c = .created ∨ s.talker c = .waiting
  served : ∀ c, s.connected c = true → ∃ pieces, (s.talker c).Served c pieces
  alone : ∀ c d, s.Pending c → s.Pending d ∨ (s.calls.stage d).inside = true → c = d
  name : ∀ t, s.vrotalib = some t ↔ s.talker t = .waiting ∨ s.Serving t

namespace Settled

variable {s : Flashes C} {c : C}

theorem idle : Settled (Flashes.idle : Flashes C) where
  exclusive := Exclusive.idle
  quiet _ _ := ⟨rfl, rfl⟩
  pending _ h := nomatch h
  served _ h := nomatch h
  alone _ _ h := absurd rfl h.1
  name t := by simp [Flashes.idle, Flashes.Serving]

theorem started_of_present (h : Settled s) {t : C} (ht : s.talker t ≠ .absent) :
    (s.calls.stage t).started = true := by
  cases hst : (s.calls.stage t).started with
  | true => rfl
  | false => exact absurd (h.quiet t hst).1 ht

/-- Before its client is accepted a talker belongs to the pending call. -/
theorem pending_of_unserved (h : Settled s) {t : C} (ht : s.talker t = .created ∨
    s.talker t = .waiting) : s.Pending t := by
  refine ⟨Stage.made_of_started (h.started_of_present ?_), ?_⟩
  · rcases ht with ht | ht <;> simp [ht]
  · rw [Bool.eq_false_iff]
    intro hc
    obtain ⟨pieces, hk | hk⟩ := h.served t hc
    · rcases ht with ht | ht <;> simp [ht] at hk
    · rcases ht with ht | ht <;> simp [ht] at hk

/-- A talker that has accepted a client accepted that of its own call. -/
theorem own_client (h : Settled s) {t : C} {pieces : List Piece}
    (ht : (s.talker t).Served c pieces) : c = t ∧ s.connected t = true := by
  have hclient := Talker.client_of_served ht
  have hpresent : s.talker t ≠ .absent := by
    intro habsent
    simp [habsent, Talker.client] at hclient
  have hconnected : s.connected t = true := by
    by_contra hc
    have hunserved := h.pending t (h.started_of_present hpresent) (by simpa using hc)
    rcases hunserved with hk | hk <;> simp [hk, Talker.client] at hclient
  obtain ⟨own, hown⟩ := h.served t hconnected
  exact ⟨Option.some.inj (hclient.symm.trans (Talker.client_of_served hown)), hconnected⟩

theorem advanced [DecidableEq C] (h : Settled s) {st : Stage} {calls : Downloads C}
    (hexclusive : Exclusive calls) (hstage : calls.stage = (s.calls.moved c st).stage)
    (hmade : s.calls.stage c ≠ .notMade) (hstarted : st.started = (s.calls.stage c).started)
    (hinside : st.inside = true → (s.calls.stage c).inside = true) :
    Settled { s with calls := calls } := by
  have hself : calls.stage c = st := by
    rw [hstage, Downloads.moved_self]
  have hother (d : C) (hd : d ≠ c) : calls.stage d = s.calls.stage d := by
    rw [hstage, Downloads.moved_of_ne hd]
  have hstarted' (d : C) : (calls.stage d).started = (s.calls.stage d).started := by
    by_cases hd : d = c
    · rw [hd, hself, hstarted]
    · rw [hother d hd]
  have hpending (d : C) (hd : calls.stage d ≠ .notMade) : s.calls.stage d ≠ .notMade := by
    by_cases hdc : d = c
    · rwa [hdc]
    · rwa [← hother d hdc]
  refine ⟨hexclusive, fun d hd => h.quiet d ((hstarted' d).symm.trans hd),
    fun d hd => h.pending d ((hstarted' d).symm.trans hd), h.served, ?_, h.name⟩
  intro a b ha hb
  refine h.alone a b ⟨hpending a ha.1, ha.2⟩ ?_
  rcases hb with hb | hb
  · exact Or.inl ⟨hpending b hb.1, hb.2⟩
  · by_cases hbc : b = c
    · have hin : (calls.stage b).inside = true := hb
      rw [hbc, hself] at hin
      exact Or.inr (hbc ▸ hinside hin)
    · have hin : (calls.stage b).inside = true := hb
      rw [hother b hbc] at hin
      exact Or.inr hin

theorem made [DecidableEq C] (h : Settled s) (hc : s.calls.stage c = .notMade)
    (hexclusive : Exclusive (s.calls.moved c .checked))
    (hnone : ∀ d, (s.calls.stage d).inside = false) (hall : s.AllConnected) :
    Settled { s with calls := s.calls.moved c .checked } := by
  have hother (d : C) (hd : d ≠ c) : (s.calls.moved c .checked).stage d = s.calls.stage d :=
    Downloads.moved_of_ne hd s.calls .checked
  have honly (d : C) (hd : (s.calls.moved c .checked).stage d ≠ .notMade)
      (hquiet : s.connected d = false) : d = c := by
    by_contra hne
    rw [hother d hne] at hd
    exact absurd (hall d hd) (by rw [hquiet]; decide)
  have hinside (d : C) (hd : ((s.calls.moved c .checked).stage d).inside = true) : d = c := by
    by_contra hne
    rw [hother d hne, hnone d] at hd
    exact absurd hd (by decide)
  have hstarted (d : C) :
      ((s.calls.moved c .checked).stage d).started = (s.calls.stage d).started := by
    by_cases hd : d = c
    · rw [hd, Downloads.moved_self, hc]
      rfl
    · rw [hother d hd]
  refine ⟨hexclusive, fun d hd => h.quiet d ((hstarted d).symm.trans hd),
    fun d hd => h.pending d ((hstarted d).symm.trans hd), h.served, ?_, h.name⟩
  intro a b ha hb
  rcases hb with hb | hb
  · exact (honly a ha.1 ha.2).trans (honly b hb.1 hb.2).symm
  · exact (honly a ha.1 ha.2).trans (hinside b hb).symm

theorem talking [DecidableEq C] (h : Settled s) (hc : s.calls.stage c = .marked)
    (hexclusive : Exclusive (s.calls.moved c .talking)) :
    Settled ({ s with calls := s.calls.moved c .talking }.become c .created) := by
  obtain ⟨habsent, hquiet⟩ := h.quiet c (by rw [hc]; rfl)
  have hother (d : C) (hd : d ≠ c) : (s.calls.moved c .talking).stage d = s.calls.stage d :=
    Downloads.moved_of_ne hd s.calls .talking
  have hmade (d : C) (hd : (s.calls.moved c .talking).stage d ≠ .notMade) :
      s.calls.stage d ≠ .notMade := by
    by_cases hdc : d = c
    · rw [hdc, hc]
      decide
    · rwa [← hother d hdc]
  have hinside (d : C) (hd : ((s.calls.moved c .talking).stage d).inside = true) :
      (s.calls.stage d).inside = true := by
    by_cases hdc : d = c
    · rw [hdc, hc]
      rfl
    · rwa [← hother d hdc]
  refine ⟨hexclusive, ?_, ?_, ?_, ?_, ?_⟩
  · intro d hd
    have hdc : d ≠ c := by
      rintro rfl
      exact absurd hd (by simp [Flashes.become, Stage.started])
    rw [Flashes.become_of_ne hdc]
    exact h.quiet d ((congrArg Stage.started (hother d hdc)).symm.trans hd)
  · intro d hd hconnected
    by_cases hdc : d = c
    · rw [hdc]
      exact Or.inl (Flashes.become_self _ c .created)
    · rw [Flashes.become_of_ne hdc]
      exact h.pending d ((congrArg Stage.started (hother d hdc)).symm.trans hd) hconnected
  · intro d hd
    have hdc : d ≠ c := by
      rintro rfl
      have hconnected : s.connected d = true := hd
      exact absurd hconnected (by rw [hquiet]; decide)
    rw [Flashes.become_of_ne hdc]
    exact h.served d hd
  · intro a b ha hb
    refine h.alone a b ⟨hmade a ha.1, ha.2⟩ ?_
    rcases hb with hb | hb
    · exact Or.inl ⟨hmade b hb.1, hb.2⟩
    · exact Or.inr (hinside b hb)
  · intro t
    have hname := h.name t
    by_cases htc : t = c
    · subst htc
      simpa [Flashes.Serving, habsent, Flashes.become] using hname
    · simpa [Flashes.Serving, Flashes.become, htc] using hname

/-- Steps of the threads that leave the calls alone: the talker `t` gets further. -/
theorem become [DecidableEq C] (h : Settled s) {t : C} (ht : s.talker t ≠ .absent)
    {s' : Flashes C} {k : Talker C} (hcalls : s'.calls = s.calls)
    (htalker : s'.talker = (s.become t k).talker)
    (hconnected : ∀ c, c ≠ t → s'.connected c = s.connected c)
    (hgrows : s.connected t = true → s'.connected t = true)
    (hpending : s'.connected t = false → k = .created ∨ k = .waiting)
    (hserved : s'.connected t = true → ∃ pieces, k.Served t pieces)
    (hname : ∀ u, s'.vrotalib = some u ↔ s'.talker u = .waiting ∨ s'.Serving u) :
    Settled s' := by
  have hstarted := h.started_of_present ht
  have hother (d : C) (hd : d ≠ t) : s'.talker d = s.talker d := by
    rw [htalker, Flashes.become_of_ne hd]
  have hself : s'.talker t = k := by
    rw [htalker, Flashes.become_self]
  have hback (d : C) (hd : s'.Pending d) : s.Pending d := by
    refine ⟨by rw [← hcalls]; exact hd.1, ?_⟩
    by_cases hdt : d = t
    · rw [Bool.eq_false_iff]
      intro hc
      rw [hdt] at hc hd
      exact absurd hd.2 (by rw [hgrows hc]; decide)
    · rw [← hconnected d hdt]
      exact hd.2
  refine ⟨by rw [hcalls]; exact h.exclusive, ?_, ?_, ?_, ?_, hname⟩
  · intro d hd
    rw [hcalls] at hd
    have hdt : d ≠ t := by
      rintro rfl
      exact absurd hd (by rw [hstarted]; decide)
    rw [hother d hdt, hconnected d hdt]
    exact h.quiet d hd
  · intro d hd hc
    by_cases hdt : d = t
    · rw [hdt, hself]
      exact hpending (hdt ▸ hc)
    · rw [hcalls] at hd
      rw [hconnected d hdt] at hc
      rw [hother d hdt]
      exact h.pending d hd hc
  · intro d hd
    by_cases hdt : d = t
    · rw [hdt, hself]
      exact hserved (hdt ▸ hd)
    · rw [hconnected d hdt] at hd
      rw [hother d hdt]
      exact h.served d hd
  · intro a b ha hb
    refine h.alone a b (hback a ha) ?_
    rcases hb with hb | hb
    · exact Or.inl (hback b hb)
    · exact Or.inr (by rwa [hcalls] at hb)

theorem name_free (h : Settled s) {t : C} (ht : s.talker t = .created)
    (hnone : ∀ u, ¬ s.Serving u) : s.vrotalib = none := by
  by_contra hsome
  obtain ⟨u, hu⟩ := Option.ne_none_iff_exists'.mp hsome
  rcases (h.name u).mp hu with hwaiting | hserving
  · have hut := h.alone u t (h.pending_of_unserved (Or.inr hwaiting))
      (Or.inl (h.pending_of_unserved (Or.inl ht)))
    rw [hut, ht] at hwaiting
    exact nomatch hwaiting
  · exact hnone u hserving

section Steps

variable [DecidableEq C] (firmware : C → Firmware) {log : List (FlashEvent C)}

theorem caller (h : Settled s) {result : JString}
    (hi : Undisturbed s log (.caller c result)) :
    Settled ((flashes firmware).step s (.caller c result)).1 := by
  have hserial : Serialized s.calls [] (c, result) := by
    intro hst d hd
    have hnone := hi.1 hst d
    rw [hd] at hnone
    exact absurd hnone (by decide)
  have hexclusive := h.exclusive.step firmware hserial
  simp only [flashes, Flashes.step]
  cases hst : s.calls.stage c with
  | notMade =>
      have hflag : s.calls.bRunning = false := by
        rw [Bool.eq_false_iff]
        intro hf
        obtain ⟨d, hd⟩ := h.exclusive.flag.mp hf
        exact absurd (Stage.inside_of_holds hd) (by rw [hi.1 hst d]; decide)
      rw [Downloads.step_checked hst hflag] at hexclusive ⊢
      exact h.made hst hexclusive (hi.1 hst) (hi.2.1 hst)
  | checked =>
      rw [Downloads.step_marked hst] at hexclusive ⊢
      exact h.advanced hexclusive rfl (by rw [hst]; decide) (by rw [hst]; rfl) (by rw [hst]; decide)
  | marked =>
      rw [Downloads.step_talking hst] at hexclusive ⊢
      exact h.talking hst hexclusive
  | talking =>
      rw [Downloads.step_flashing hst] at hexclusive ⊢
      exact h.advanced hexclusive rfl (by rw [hst]; decide) (by rw [hst]; rfl) (by rw [hst]; decide)
  | flashing =>
      rw [Downloads.step_flashed hst] at hexclusive ⊢
      exact h.advanced hexclusive rfl (by rw [hst]; decide) (by rw [hst]; rfl) fun _ => by
        rw [hst]
        rfl
  | flashed kept =>
      rw [Downloads.step_returned hst] at hexclusive ⊢
      exact h.advanced hexclusive rfl (by simp [hst]) (by rw [hst]; rfl) fun hin => nomatch hin
  | returned kept =>
      rw [Downloads.step_done hst]
      exact h

theorem bind (h : Settled s) {t : C} (hi : Undisturbed s log (.bind t)) :
    Settled ((flashes firmware).step s (.bind t)).1 := by
  simp only [flashes, Flashes.step]
  cases ht : s.talker t with
  | created =>
      have hfree := h.name_free ht (hi.2.2 t rfl)
      have hpending := h.pending_of_unserved (Or.inl ht)
      rw [if_pos hfree]
      refine h.become (k := .waiting) (by simp [ht]) rfl rfl (fun _ _ => rfl) id ?_ ?_ ?_
      · exact fun _ => Or.inr rfl
      · intro hc
        exact absurd (show s.connected t = true from hc) (by rw [hpending.2]; decide)
      · intro u
        by_cases hut : u = t
        · simp [hut]
        · have hname := h.name u
          rw [hfree] at hname
          have hne : t ≠ u := fun heq => hut heq.symm
          simpa [Flashes.Serving, Flashes.become, hut, hne] using hname
  | _ => exact h

/-- The waiting talker is that of the call whose `dfu-util` connects. -/
theorem connect (h : Settled s) : Settled ((flashes firmware).step s (.connect c)).1 := by
  simp only [flashes, Flashes.step]
  by_cases hready : s.calls.stage c = .flashing ∧ s.connected c = false
  · rw [if_pos hready]
    cases hname : s.vrotalib with
    | none => exact h
    | some t =>
        simp only [Flashes.accept]
        cases ht : s.talker t with
        | waiting =>
            have hct : t = c := h.alone t c (h.pending_of_unserved (Or.inr ht))
              (Or.inr (by rw [hready.1]; rfl))
            subst hct
            refine h.become (t := t) (k := .serving t []) (by simp [ht]) rfl rfl ?_ ?_ ?_ ?_ ?_
            · intro d hd
              exact Function.update_of_ne hd true s.connected
            · exact fun _ => Function.update_self t true s.connected
            · intro hc
              simp at hc
            · exact fun _ => ⟨[], Or.inl rfl⟩
            · intro u
              by_cases hut : u = t
              · simp [hut, hname, Flashes.Serving, Flashes.become]
              · simpa [Flashes.Serving, Flashes.become, hut] using h.name u
        | _ => exact h
  · rw [if_neg hready]
    exact h

theorem read (h : Settled s) {t : C} {piece : Piece} :
    Settled ((flashes firmware).step s (.read t piece)).1 := by
  simp only [flashes, Flashes.step]
  cases ht : s.talker t with
  | serving d pieces =>
      obtain ⟨rfl, hconnected⟩ := h.own_client (c := d) (Or.inl ht)
      refine h.become (k := .serving d (pieces ++ [piece])) (by simp [ht]) rfl rfl
        (fun _ _ => rfl) id ?_ ?_ ?_
      · intro hc
        exact absurd hconnected (by rw [show s.connected d = false from hc]; decide)
      · exact fun _ => ⟨pieces ++ [piece], Or.inl rfl⟩
      · intro u
        have hname := h.name u
        by_cases hut : u = d
        · subst hut
          simpa [Flashes.Serving, Flashes.become, ht] using hname
        · simpa [Flashes.Serving, Flashes.become, hut] using hname
  | _ => exact h

theorem finish (h : Settled s) {t : C} {ending : Ending} :
    Settled ((flashes firmware).step s (.finish t ending)).1 := by
  simp only [flashes, Flashes.step]
  cases ht : s.talker t with
  | serving d pieces =>
      obtain ⟨rfl, hconnected⟩ := h.own_client (c := d) (Or.inl ht)
      have hholder : s.vrotalib = some d := (h.name d).mpr (Or.inr ⟨d, pieces, ht⟩)
      refine h.become (k := .ended (some (d, pieces))) (by simp [ht]) rfl rfl
        (fun _ _ => rfl) id ?_ ?_ ?_
      · intro hc
        exact absurd hconnected (by rw [show s.connected d = false from hc]; decide)
      · exact fun _ => ⟨pieces, Or.inr rfl⟩
      · intro u
        have hname := h.name u
        by_cases hut : u = d
        · simp [hut, Flashes.Serving, Flashes.become]
        · rw [hholder] at hname
          have hne : d ≠ u := fun heq => hut heq.symm
          simpa [Flashes.Serving, Flashes.become, hut, hne] using hname
  | _ => exact h

theorem step (h : Settled s) {i : FlashInput C} (hi : Undisturbed s log i) :
    Settled ((flashes firmware).step s i).1 := by
  cases i with
  | caller c result => exact h.caller firmware hi
  | bind t => exact h.bind firmware hi
  | connect c => exact h.connect firmware
  | read t piece => exact h.read firmware
  | finish t ending => exact h.finish firmware

end Steps

end Settled

/-! ## What the talkers have broadcast -/

/-- A complete report is broadcast without -1, while it is read and behind its end. -/
theorem said_complete {k : Talker C} {c : C} {pieces : List Piece} (hk : k.Served c pieces)
    (hreport : CompleteReport pieces) : (-1 : Int32) ∉ k.said := by
  obtain ⟨f, ws, hpos, hf, hws, hlast, rfl⟩ := hreport
  have htalk := talk_frames hpos hf hws .endOfStream
  rw [if_neg (not_not.mpr hlast), List.append_nil] at htalk
  have hended : (-1 : Int32) ∉ talkWithSocket (.connected ((f :: ws).map frame) .endOfStream) := by
    rw [htalk]
    intro hmem
    rcases List.mem_cons.mp hmem with hzero | hmem
    · exact absurd hzero (by decide)
    · obtain ⟨w, hw, hpercent⟩ := List.mem_map.mp hmem
      have hle := percent_le (hws w hw)
      exact ofNat_ne_neg_one (by omega) hpercent
  rcases hk with rfl | rfl
  · exact fun hmem => hended (List.mem_append_left _ hmem)
  · exact hended

section Broadcasts

variable [DecidableEq C]

theorem heardFrom_append (t : C) (log events : List (FlashEvent C)) :
    heardFrom t (log ++ events) = heardFrom t log ++ heardFrom t events :=
  List.filterMap_append

@[simp] theorem heardFrom_caller (t : C) (events : List (DownloadEvent C)) :
    heardFrom t (events.map .caller) = [] := by
  induction events with
  | nil => rfl
  | cons e events ih => exact ih

theorem heardFrom_broadcasts (t u : C) (values : List Int32) :
    heardFrom u (Flashes.broadcasts t values) = if t = u then values else [] := by
  induction values with
  | nil => simp [heardFrom, Flashes.broadcasts]
  | cons v values ih =>
      unfold heardFrom Flashes.broadcasts at ih ⊢
      by_cases htu : t = u
      · rw [if_pos htu] at ih ⊢
        rw [List.map_cons, List.filterMap_cons_some (by simp [htu]; rfl), ih]
      · rw [if_neg htu] at ih ⊢
        rw [List.map_cons, List.filterMap_cons_none (by simp [htu]), ih]

/-- A step of a call makes no talker say anything; at most it starts one. -/
theorem caller_talker (firmware : C → Firmware) (s : Flashes C) (c : C) (result : JString) :
    ((flashes firmware).step s (.caller c result)).1.talker = s.talker ∨
      s.calls.stage c = .marked ∧
        ((flashes firmware).step s (.caller c result)).1.talker = (s.become c .created).talker := by
  simp only [flashes, Flashes.step]
  cases hst : s.calls.stage c with
  | notMade =>
      cases hflag : s.calls.bRunning with
      | true =>
          rw [Downloads.step_refused hst hflag]
          exact Or.inl rfl
      | false =>
          rw [Downloads.step_checked hst hflag]
          exact Or.inl rfl
  | checked =>
      rw [Downloads.step_marked hst]
      exact Or.inl rfl
  | marked =>
      rw [Downloads.step_talking hst]
      exact Or.inr ⟨rfl, rfl⟩
  | talking =>
      rw [Downloads.step_flashing hst]
      exact Or.inl rfl
  | flashing =>
      rw [Downloads.step_flashed hst]
      exact Or.inl rfl
  | flashed kept =>
      rw [Downloads.step_returned hst]
      exact Or.inl rfl
  | returned kept =>
      rw [Downloads.step_done hst]
      exact Or.inl rfl

/-- The log holds what each talker has to have said where it is. -/
def Told (s : Flashes C) (log : List (FlashEvent C)) : Prop :=
  ∀ t, heardFrom t log = (s.talker t).said

namespace Told

variable {s : Flashes C} {log : List (FlashEvent C)}

theorem become (h : Told s log) {t : C} {k : Talker C} {values : List Int32}
    (hsaid : k.said = (s.talker t).said ++ values) :
    Told (s.become t k) (log ++ Flashes.broadcasts t values) := by
  intro u
  rw [heardFrom_append, heardFrom_broadcasts, h u]
  by_cases hut : u = t
  · rw [hut, if_pos rfl, Flashes.become_self, hsaid]
  · rw [if_neg fun heq => hut heq.symm, List.append_nil, Flashes.become_of_ne hut]

theorem silent (h : Told s log) {s' : Flashes C} {events : List (FlashEvent C)}
    (hevents : ∀ t, heardFrom t events = [])
    (hsaid : ∀ t, (s'.talker t).said = (s.talker t).said) : Told s' (log ++ events) := by
  intro t
  rw [heardFrom_append, hevents, List.append_nil, h t, hsaid]

theorem step (firmware : C → Firmware) (hs : Settled s) (h : Told s log) (i : FlashInput C) :
    Told ((flashes firmware).step s i).1 (log ++ ((flashes firmware).step s i).2) := by
  cases i with
  | caller c result =>
      refine h.silent (fun t => heardFrom_caller t _) fun t => ?_
      rcases caller_talker firmware s c result with hsame | ⟨hst, hcreated⟩
      · rw [hsame]
      · rw [hcreated]
        by_cases htc : t = c
        · rw [htc, Flashes.become_self, (hs.quiet c (by rw [hst]; rfl)).1]
          rfl
        · rw [Flashes.become_of_ne htc]
  | bind t =>
      simp only [flashes, Flashes.step]
      cases ht : s.talker t with
      | created =>
          by_cases hfree : s.vrotalib = none
          · rw [if_pos hfree]
            have hsilent : Talker.said (.waiting : Talker C) = (s.talker t).said ++ [] := by
              rw [ht]
              rfl
            exact h.become hsilent
          · rw [if_neg hfree]
            exact h.become (by rw [ht]; rfl)
      | _ => simpa using h
  | connect c =>
      simp only [flashes, Flashes.step]
      by_cases hready : s.calls.stage c = .flashing ∧ s.connected c = false
      · rw [if_pos hready]
        cases s.vrotalib with
        | none => simpa using h
        | some t =>
            simp only [Flashes.accept]
            cases ht : s.talker t with
            | waiting =>
                refine h.silent (fun u => rfl) fun u => ?_
                by_cases hut : u = t
                · rw [hut, Flashes.become_self, ht]
                  rfl
                · rw [Flashes.become_of_ne hut]
            | _ => simpa using h
      · rw [if_neg hready]
        simpa using h
  | read t piece =>
      simp only [flashes, Flashes.step]
      cases ht : s.talker t with
      | serving c pieces =>
          refine h.become ?_
          have hrun := Machine.run_append readLoop start pieces [piece]
          rw [ht]
          show (readLoop.run start (pieces ++ [piece])).2 = _
          rw [hrun]
          simp [Talker.said, Machine.run_cons, readLoop]
      | _ => simpa using h
  | finish t ending =>
      simp only [flashes, Flashes.step]
      cases ht : s.talker t with
      | serving c pieces => exact h.become (by rw [ht]; rfl)
      | _ => simpa using h

end Told

theorem reach_settled {firmware : C → Firmware} {s : Flashes C} {log : List (FlashEvent C)}
    (h : (flashes firmware).Reach Undisturbed Flashes.idle s log) : Settled s ∧ Told s log :=
  h.invariant (P := fun s log => Settled s ∧ Told s log) ⟨Settled.idle, fun _ => rfl⟩ fun _ _ i hs hi =>
    ⟨hs.1.step firmware hi, hs.2.step firmware hs.1 i⟩

/-! ## Successive flashes -/

/-- In a run of calls that do not overlap, where every call finds the `dfu-util` of
the earlier calls connected and no talker makes its server socket while another
serves: no talker of an earlier call waits or has yet to wait when a call starts,
and a complete report causes no -1, neither from the talker that reads it nor from
that of its call. A call that starts although a `dfu-util` never connected leaves
that talker waiting or about to; a server socket made while another talker serves
is a -1. -/
theorem successive_flashes {firmware : C → Firmware} {s : Flashes C} {log : List (FlashEvent C)}
    (h : (flashes firmware).Reach Undisturbed Flashes.idle s log) :
    (∀ i, i.Starts s → Undisturbed s log i →
      ∀ t, s.talker t ≠ .waiting ∧ s.talker t ≠ .created) ∧
    (∀ c t pieces, (s.talker t).Served c pieces → CompleteReport pieces →
      (-1 : Int32) ∉ heardFrom t log ∧ (-1 : Int32) ∉ heardFrom c log) ∧
    (∀ i, i.Starts s → Successive s log i → ¬ s.AllConnected →
      ∃ t, s.calls.stage t ≠ .notMade ∧ (s.talker t = .waiting ∨ s.talker t = .created)) ∧
    ∀ t, s.talker t = .created → (∃ u, s.Serving u) →
      ((flashes firmware).step s (.bind t)).2 = [.broadcast t (-1)] := by
  obtain ⟨hsettled, htold⟩ := reach_settled h
  refine ⟨?_, ?_, ?_, ?_⟩
  · intro i hstarts hi t
    have hall := hi.2.1 hstarts
    have hconnected (hk : s.talker t = .created ∨ s.talker t = .waiting) : False := by
      have hpending := hsettled.pending_of_unserved hk
      exact absurd (hall t hpending.1) (by rw [hpending.2]; decide)
    exact ⟨fun hk => hconnected (Or.inr hk), fun hk => hconnected (Or.inl hk)⟩
  · intro c t pieces hk hreport
    obtain ⟨rfl, -⟩ := hsettled.own_client hk
    have hquiet := said_complete hk hreport
    rw [← htold c] at hquiet
    exact ⟨hquiet, hquiet⟩
  · intro i hstarts hi hsome
    simp only [Flashes.AllConnected, not_forall, Bool.not_eq_true] at hsome
    obtain ⟨t, hmade, hquiet⟩ := hsome
    refine ⟨t, hmade, ?_⟩
    have hnone : (s.calls.stage t).inside = false := by
      cases i with
      | caller c result => exact hi hstarts t
      | _ => exact hstarts.elim
    have hstarted : (s.calls.stage t).started = true := by
      cases hst : s.calls.stage t with
      | notMade => exact absurd hst hmade
      | checked | marked =>
          rw [hst] at hnone
          exact absurd hnone (by decide)
      | _ => rfl
    exact (hsettled.pending t hstarted hquiet).symm
  · intro t ht hserving
    obtain ⟨u, hu⟩ := hserving
    have hname := (hsettled.name u).mpr (Or.inr hu)
    simp only [flashes, Flashes.step, ht, hname]
    rfl

end Broadcasts

end Runs

/-- A call whose `dfu-util` connects, reports two bytes as written and exits. -/
def reportingCall (c : Bool) : List (FlashInput Bool) :=
  [.caller c [], .caller c [], .caller c [], .bind c, .caller c [], .connect c, .read c (frame 2),
    .read c (frame 2), .finish c .endOfStream, .caller c [], .caller c []]

/-- Two complete reports behind one another. -/
theorem successive_flashes_two :
    let r := (flashes testFirmware).run Flashes.idle (reportingCall true ++ reportingCall false)
    (-1 : Int32) ∉ heardFrom false r.2 := by
  intro r
  have hreach : (flashes testFirmware).Reach Undisturbed Flashes.idle r.1 ([] ++ r.2) :=
    Machine.Reach.start.run (by decide)
  have hreport : CompleteReport [frame 2, frame 2] :=
    ⟨2, [2], by decide, by decide, by decide, rfl, rfl⟩
  exact ((successive_flashes hreach).2.1 false false _ (Or.inr rfl) hreport).1

/-- The `dfu-util` of the first call never connects, that of the second reports to the
talker of the first. -/
def strayReport : List (FlashInput Bool) :=
  [.caller true [], .caller true [], .caller true [], .bind true, .caller true [], .caller true [],
    .caller true [], .caller false [], .caller false [], .caller false [], .bind false,
    .caller false [], .connect false, .read true (frame 2), .read true (frame 2)]

/-- The second call starts while a talker waits, and although the report of its
`dfu-util` is complete its own talker broadcasts -1. -/
theorem successive_flashes_fails :
    ¬ ∀ (s : Flashes Bool) (log : List (FlashEvent Bool)),
      (flashes testFirmware).Reach Successive Flashes.idle s log →
      (∀ i, i.Starts s → Successive s log i → ∀ t, s.talker t ≠ .waiting) ∧
      ∀ c t pieces, (s.talker t).Served c pieces → CompleteReport pieces →
        (-1 : Int32) ∉ heardFrom t log ∧ (-1 : Int32) ∉ heardFrom c log := by
  intro hall
  have hadmits : (flashes testFirmware).Admits Successive Flashes.idle [] strayReport :=
    by decide
  have hserved : (((flashes testFirmware).run Flashes.idle strayReport).1.talker true).Served
      false [frame 2, frame 2] := Or.inl rfl
  have hreport : CompleteReport [frame 2, frame 2] :=
    ⟨2, [2], by decide, by decide, by decide, rfl, rfl⟩
  have hheard : (-1 : Int32) ∈
      heardFrom false ((flashes testFirmware).run Flashes.idle strayReport).2 := by decide
  have hclaim := hall _ _ (Machine.Reach.start.run hadmits)
  exact (hclaim.2 false true _ hserved hreport).2 hheard

end VRAdmin
