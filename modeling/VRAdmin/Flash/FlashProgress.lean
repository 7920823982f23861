import VRAdmin.Service.Callbacks

/-! # The talkers and the callbacks

The threads of `TalkToDfuUtil` together with the list they broadcast to. A talker
makes its server socket, waits for a client and reads; each value it broadcasts takes
it through `broadcastFlashProgress` under the lock of `mCallbacks`, and between two of
its steps other talkers, registrations and deaths take theirs.
-/

namespace VRAdmin

open Foundation TalkToDfuUtil

/-- Where the thread of a talker is in `talkWithSocket`. -/
inductive TalkStage
  | absent
  /-- Started, its server socket not made. -/
  | created
  /-- It has the name and is blocked in `accept`. -/
  | accepting
  /-- In the loop, these pieces read. -/
  | reading (pieces : List Piece)
  /-- In the `finally` block; without pieces it had no client. -/
  | closing (pieces : Option (List Piece))
  | ended (pieces : Option (List Piece))
deriving DecidableEq

/-- A talker, with the values that it has to broadcast before it goes on. -/
structure Talk where
  stage : TalkStage
  owed : List Int32

structure FlashProgress (C T : Type) where
  talk : T → Talk
  vrotalib : Option T
  callbacks : Callbacks C T
  /-- An exception that nobody catches has ended the process. -/
  crashed : Bool

/-- A step of a talker, of a binder thread or of a callback's process. `made` and
`client` say that `new LocalServerSocket` and `accept` do not throw. -/
inductive ProgressInput (C T : Type)
  | startTalker (t : T)
  | bind (t : T) (made : Bool)
  | accept (t : T) (client : Bool)
  | read (t : T) (piece : Piece)
  | leave (t : T) (ending : Ending)
  | close (t : T)
  | beginBroadcast (t : T) (items : List C)
  | onUpgradingUpdate (t : T)
  | finishBroadcast (t : T)
  | registerCallback (cb : Option C)
  | unregisterCallback (cb : Option C)
  | dies (cb : C)
  | deathNoticed (cb : C)

/-- An event at the list, with the talker whose step it is. -/
abbrev ProgressEvent (C T : Type) := Option T × CallbackEvent C

section Model

variable {C T : Type} [DecidableEq C] [DecidableEq T]

/-- The talker whose step it is. -/
def CallbackInput.thread : CallbackInput C T → Option T
  | .beginBroadcast t _ _ => some t
  | .onUpgradingUpdate t => some t
  | .finishBroadcast t => some t
  | _ => none

namespace FlashProgress

def idle : FlashProgress C T := ⟨fun _ => ⟨.absent, []⟩, none, Callbacks.start, false⟩

def move (s : FlashProgress C T) (t : T) (stage : TalkStage) (owed : List Int32) :
    FlashProgress C T :=
  { s with talk := Function.update s.talk t ⟨stage, owed⟩ }

/-- The talker is inside `broadcastFlashProgress`. -/
def telling (s : FlashProgress C T) (t : T) : Bool := s.callbacks.broadcast.any (·.thread = t)

/-- The talker has nothing to broadcast and goes on in `talkWithSocket`. -/
def ready (s : FlashProgress C T) (t : T) : Bool := (s.talk t).owed.isEmpty && !s.telling t

def bind (s : FlashProgress C T) (t : T) (made : Bool) : FlashProgress C T :=
  if s.vrotalib = none ∧ made then { s.move t .accepting [] with vrotalib := some t }
  else s.move t (.closing none) (onFinally start)

def accept (s : FlashProgress C T) (t : T) (client : Bool) : FlashProgress C T :=
  if client then s.move t (.reading []) [] else s.move t (.closing none) (onFinally start)

/-- A read in the loop. The division may throw, which leads to the `finally` block. -/
def read (s : FlashProgress C T) (t : T) (pieces : List Piece) (piece : Piece) :
    FlashProgress C T :=
  let r := receive (readLoop.run start pieces).1 piece
  if r.1.arithmeticException then
    s.move t (.closing (some (pieces ++ [piece]))) (r.2 ++ onFinally r.1)
  else s.move t (.reading (pieces ++ [piece])) r.2

/-- The end of the `finally` block. An `ArithmeticException` is then thrown on. -/
def close (s : FlashProgress C T) (t : T) (pieces : Option (List Piece)) : FlashProgress C T :=
  { s.move t (.ended pieces) [] with
    vrotalib := if s.vrotalib = some t then none else s.vrotalib
    crashed := pieces.any fun pieces => (readLoop.run start pieces).1.arithmeticException }

/-- A step of `talkWithSocket` outside of `broadcastFlashProgress`. -/
def proceed (s : FlashProgress C T) : ProgressInput C T → FlashProgress C T
  | .startTalker t => if (s.talk t).stage = .absent then s.move t .created [] else s
  | .bind t made => if (s.talk t).stage = .created then s.bind t made else s
  | .accept t client => if (s.talk t).stage = .accepting then s.accept t client else s
  | .read t piece =>
      match (s.talk t).stage with
      | .reading pieces => if s.ready t then s.read t pieces piece else s
      | _ => s
  | .leave t _ =>
      match (s.talk t).stage with
      | .reading pieces =>
          if s.ready t then
            s.move t (.closing (some pieces)) (onFinally (readLoop.run start pieces).1)
          else s
      | _ => s
  | .close t =>
      match (s.talk t).stage with
      | .closing pieces => if s.ready t then s.close t pieces else s
      | _ => s
  | _ => s

/-- A step at the list, its events with the talker whose step it is. -/
def onList (s : FlashProgress C T) (i : CallbackInput C T) :
    FlashProgress C T × List (ProgressEvent C T) :=
  ({ s with callbacks := (s.callbacks.step i).1 }, (s.callbacks.step i).2.map (i.thread, ·))

/-- The talker takes the lock for the next value that it owes. -/
def beginBroadcast (s : FlashProgress C T) (t : T) (items : List C) :
    FlashProgress C T × List (ProgressEvent C T) :=
  match (s.talk t).owed with
  | [] => (s, [])
  | percent :: owed =>
      if s.callbacks.broadcast.isSome then (s, [])
      else (s.move t (s.talk t).stage owed).onList (.beginBroadcast t percent items)

def act (s : FlashProgress C T) :
    ProgressInput C T → FlashProgress C T × List (ProgressEvent C T)
  | .beginBroadcast t items => s.beginBroadcast t items
  | .onUpgradingUpdate t => s.onList (.onUpgradingUpdate t)
  | .finishBroadcast t => s.onList (.finishBroadcast t)
  | .registerCallback cb => s.onList (.registerCallback cb)
  | .unregisterCallback cb => s.onList (.unregisterCallback cb)
  | .dies cb => s.onList (.dies cb)
  | .deathNoticed cb => s.onList (.deathNoticed cb)
  | i => (s.proceed i, [])

def step (s : FlashProgress C T) (i : ProgressInput C T) :
    FlashProgress C T × List (ProgressEvent C T) :=
  if s.crashed then (s, []) else s.act i

end FlashProgress

def flashProgress : Machine (FlashProgress C T) (ProgressInput C T) (ProgressEvent C T) :=
  ⟨FlashProgress.step⟩

omit [DecidableEq C] [DecidableEq T] in
/-- As for the list alone. -/
def ProgressInput.Possible (s : FlashProgress C T) (_log : List (ProgressEvent C T)) :
    ProgressInput C T → Prop
  | .beginBroadcast _ items => items.Perm s.callbacks.mCallbacks
  | .deathNoticed cb => cb ∈ s.callbacks.dead
  | _ => True

omit [DecidableEq T] in
instance decidableProgressPossible (s : FlashProgress C T)
    (log : List (ProgressEvent C T)) :
    (i : ProgressInput C T) → Decidable (i.Possible s log)
  | .beginBroadcast _ items => inferInstanceAs (Decidable (items.Perm s.callbacks.mCallbacks))
  | .deathNoticed cb => inferInstanceAs (Decidable (cb ∈ s.callbacks.dead))
  | .startTalker _ | .bind .. | .accept .. | .read .. | .leave .. | .close _ => isTrue trivial
  | .onUpgradingUpdate _ | .finishBroadcast _ => isTrue trivial
  | .registerCallback _ | .unregisterCallback _ | .dies _ => isTrue trivial

/-! ## What a talker says -/

/-- The session of a talker behind its loop; every ending is like this one. -/
def sessionOf : Option (List Piece) → Session
  | none => .refused
  | some pieces => .connected pieces .endOfStream

/-- What a talker broadcasts on the way to where it is. -/
def TalkStage.said : TalkStage → List Int32
  | .reading pieces => (readLoop.run start pieces).2
  | .closing pieces => talkWithSocket (sessionOf pieces)
  | .ended pieces => talkWithSocket (sessionOf pieces)
  | _ => []

/-- The talker holds the name. -/
def TalkStage.named : TalkStage → Bool
  | .accepting => true
  | .reading _ => true
  | .closing pieces => pieces.isSome
  | _ => false

/-- The events of a talker's steps. -/
def ofTalker (t : T) (log : List (ProgressEvent C T)) : List (CallbackEvent C) :=
  (log.filter (·.1 = some t)).map Prod.snd

/-- The values of a talker's broadcasts. -/
def begunBy (t : T) (log : List (ProgressEvent C T)) : List Int32 :=
  begunIn (ofTalker t log)

/-- The values that a talker's broadcasts have called the callback with. -/
def updatesFrom (t : T) (cb : C) (log : List (ProgressEvent C T)) : List Int32 :=
  updates cb (ofTalker t log)

omit [DecidableEq C] in
theorem ofTalker_append (t : T) (log events : List (ProgressEvent C T)) :
    ofTalker t (log ++ events) = ofTalker t log ++ ofTalker t events := by
  rw [ofTalker, List.filter_append, List.map_append]
  rfl

omit [DecidableEq C] in
theorem ofTalker_map (t : T) (thread : Option T) (events : List (CallbackEvent C)) :
    ofTalker t (events.map (thread, ·)) = if thread = some t then events else [] := by
  rw [ofTalker, List.filter_map, List.map_map]
  by_cases h : thread = some t
  · simp [h, Function.comp_def]
  · simp [h, Function.comp_def]

omit [DecidableEq C] in
theorem begunBy_append (t : T) (log events : List (ProgressEvent C T)) :
    begunBy t (log ++ events) = begunBy t log ++ begunBy t events := by
  rw [begunBy, ofTalker_append]
  exact List.filterMap_append

theorem updatesFrom_append (t : T) (cb : C) (log events : List (ProgressEvent C T)) :
    updatesFrom t cb (log ++ events) = updatesFrom t cb log ++ updatesFrom t cb events := by
  rw [updatesFrom, ofTalker_append]
  exact updates_append cb _ _

theorem run_snoc_read (pieces : List Piece) (piece : Piece) :
    readLoop.run start (pieces ++ [piece]) =
      ((receive (readLoop.run start pieces).1 piece).1,
        (readLoop.run start pieces).2 ++ (receive (readLoop.run start pieces).1 piece).2) := by
  rw [Machine.run_append, Machine.run_cons, Machine.run_nil, List.append_nil]
  rfl

/-- Each talker has broadcast what `talkWithSocket` says but for what it still owes, and
only the holder of the name is between `accept` and the end of its loop. -/
structure Spoken (s : FlashProgress C T) (log : List (ProgressEvent C T)) : Prop where
  said : ∀ t, begunBy t log ++ (s.talk t).owed = (s.talk t).stage.said
  named : ∀ t, (s.talk t).stage.named = true → s.vrotalib = some t
  ended : ∀ t pieces, (s.talk t).stage = .ended pieces →
    (s.talk t).owed = [] ∧ s.telling t = false

namespace Spoken

variable {s : FlashProgress C T} {log : List (ProgressEvent C T)} {t : T}

omit [DecidableEq C] in
theorem idle : Spoken (FlashProgress.idle : FlashProgress C T) [] where
  said _ := rfl
  named _ h := absurd h (by simp [FlashProgress.idle, TalkStage.named])
  ended _ _ h := absurd h (by simp [FlashProgress.idle])

omit [DecidableEq C] in
theorem silent (h : Spoken s log) (hsaid : (s.talk t).stage.said = []) :
    begunBy t log = [] ∧ (s.talk t).owed = [] :=
  List.append_eq_nil_iff.mp ((h.said t).trans hsaid)

omit [DecidableEq C] in
/-- A talker moves on; the name passes between it and nobody. -/
theorem moved (h : Spoken s log) {stage : TalkStage} {owed : List Int32} {vrotalib : Option T}
    {crashed : Bool} (hsaid : begunBy t log ++ owed = stage.said)
    (hnamed : stage.named = true → vrotalib = some t)
    (hother : ∀ u, u ≠ t → s.vrotalib = some u → vrotalib = some u)
    (hended : ∀ pieces, stage = .ended pieces → owed = [] ∧ s.telling t = false) :
    Spoken { s.move t stage owed with vrotalib, crashed } log where
  said u := by
    by_cases hu : u = t
    · subst hu
      simpa [FlashProgress.move] using hsaid
    · simpa [FlashProgress.move, hu] using h.said u
  named u := by
    by_cases hu : u = t
    · subst hu
      simpa [FlashProgress.move] using hnamed
    · intro hstage
      exact hother u hu (h.named u (by simpa [FlashProgress.move, hu] using hstage))
  ended u pieces := by
    by_cases hu : u = t
    · subst hu
      simpa [FlashProgress.move, FlashProgress.telling] using hended pieces
    · simpa [FlashProgress.move, FlashProgress.telling, hu] using h.ended u pieces

omit [DecidableEq C] in
/-- The same, when the name stays where it is. -/
theorem moves (h : Spoken s log) {stage : TalkStage} {owed : List Int32}
    (hsaid : begunBy t log ++ owed = stage.said)
    (hnamed : stage.named = true → s.vrotalib = some t)
    (hended : ∀ pieces, stage ≠ .ended pieces) : Spoken (s.move t stage owed) log :=
  h.moved hsaid hnamed (fun _ _ hu => hu)
    fun pieces hp => absurd hp (hended pieces)

omit [DecidableEq C] in
/-- Behind its broadcasts a talker has said all that it was to say. -/
theorem ready (h : Spoken s log) (ht : s.ready t = true) :
    begunBy t log = (s.talk t).stage.said ∧ s.telling t = false := by
  rw [FlashProgress.ready, Bool.and_eq_true, List.isEmpty_iff, Bool.not_eq_true'] at ht
  have hsaid := h.said t
  rw [ht.1, List.append_nil] at hsaid
  exact ⟨hsaid, ht.2⟩

omit [DecidableEq C] in
theorem refused (h : Spoken s log) (hsaid : (s.talk t).stage.said = []) :
    Spoken (s.move t (.closing none) (onFinally start)) log := by
  refine h.moves ?_ (by simp [TalkStage.named]) (by simp)
  rw [(h.silent hsaid).1]
  rfl

omit [DecidableEq C] in
theorem bind (h : Spoken s log) (ht : (s.talk t).stage = .created) (made : Bool) :
    Spoken (s.bind t made) log := by
  have hsaid : (s.talk t).stage.said = [] := by rw [ht]; rfl
  rw [FlashProgress.bind]
  split
  · next hfree =>
      refine h.moved ?_ (fun _ => rfl) ?_ (by simp)
      · rw [(h.silent hsaid).1]
        rfl
      · intro u _ hu
        rw [hfree.1] at hu
        exact absurd hu (by simp)
  · exact h.refused hsaid

omit [DecidableEq C] in
theorem accept (h : Spoken s log) (ht : (s.talk t).stage = .accepting) (client : Bool) :
    Spoken (s.accept t client) log := by
  have hsaid : (s.talk t).stage.said = [] := by rw [ht]; rfl
  rw [FlashProgress.accept]
  split
  · refine h.moves ?_ (fun _ => h.named t (by rw [ht]; rfl)) (by simp)
    rw [(h.silent hsaid).1]
    rfl
  · exact h.refused hsaid

omit [DecidableEq C] in
theorem read (h : Spoken s log) {pieces : List Piece} (ht : (s.talk t).stage = .reading pieces)
    (hready : s.ready t = true) (piece : Piece) : Spoken (s.read t pieces piece) log := by
  have hsaid := (h.ready hready).1
  have hname : s.vrotalib = some t := h.named t (by rw [ht]; rfl)
  have hsnoc := run_snoc_read pieces piece
  rw [ht] at hsaid
  simp only [FlashProgress.read]
  split
  · refine h.moves ?_ (fun _ => hname) (by simp)
    simp only [TalkStage.said, sessionOf, talkWithSocket, hsnoc]
    rw [hsaid, ← List.append_assoc]
    rfl
  · refine h.moves ?_ (fun _ => hname) (by simp)
    simp only [TalkStage.said, hsnoc]
    rw [hsaid]
    rfl

omit [DecidableEq C] in
theorem leave (h : Spoken s log) {pieces : List Piece} (ht : (s.talk t).stage = .reading pieces)
    (hready : s.ready t = true) :
    Spoken (s.move t (.closing (some pieces)) (onFinally (readLoop.run start pieces).1)) log := by
  refine h.moves ?_ (fun _ => h.named t (by rw [ht]; rfl)) (by simp)
  rw [(h.ready hready).1, ht]
  rfl

omit [DecidableEq C] in
theorem close (h : Spoken s log) {pieces : Option (List Piece)}
    (ht : (s.talk t).stage = .closing pieces) (hready : s.ready t = true) :
    Spoken (s.close t pieces) log := by
  obtain ⟨hsaid, htelling⟩ := h.ready hready
  refine h.moved ?_ (by simp [TalkStage.named]) ?_ fun _ _ => ⟨rfl, htelling⟩
  · rw [List.append_nil, hsaid, ht]
    rfl
  · intro u hu hname
    rw [if_neg (by rw [hname]; simpa using hu)]
    exact hname

omit [DecidableEq C] in
theorem proceed (h : Spoken s log) (i : ProgressInput C T) : Spoken (s.proceed i) log := by
  cases i with
  | startTalker t =>
      simp only [FlashProgress.proceed]
      split
      · next ht =>
          refine h.moves ?_ (by simp [TalkStage.named]) (by simp)
          rw [(h.silent (by rw [ht]; rfl)).1]
          rfl
      · exact h
  | bind t made =>
      simp only [FlashProgress.proceed]
      split
      · next ht => exact h.bind ht made
      · exact h
  | accept t client =>
      simp only [FlashProgress.proceed]
      split
      · next ht => exact h.accept ht client
      · exact h
  | read t piece =>
      simp only [FlashProgress.proceed]
      split
      · next pieces ht =>
          split
          · next hready => exact h.read ht hready piece
          · exact h
      · exact h
  | leave t ending =>
      simp only [FlashProgress.proceed]
      split
      · next pieces ht =>
          split
          · next hready => exact h.leave ht hready
          · exact h
      · exact h
  | close t =>
      simp only [FlashProgress.proceed]
      split
      · next pieces ht =>
          split
          · next hready => exact h.close ht hready
          · exact h
      · exact h
  | _ => exact h

omit [DecidableEq C] in
theorem whole (h : Spoken s log) {pieces : Option (List Piece)}
    (ht : (s.talk t).stage = .ended pieces) :
    begunBy t log = talkWithSocket (sessionOf pieces) := by
  have hsaid := h.said t
  rw [(h.ended t pieces ht).1, List.append_nil, ht] at hsaid
  exact hsaid

omit [DecidableEq C] in
theorem nameless (h : Spoken s log) (howed : (s.talk t).owed ≠ []) :
    s.vrotalib = some t ∨ (s.talk t).owed = [-1] := by
  have hsaid := h.said t
  cases hstage : (s.talk t).stage with
  | absent => exact absurd (h.silent (by rw [hstage]; rfl)).2 howed
  | created => exact absurd (h.silent (by rw [hstage]; rfl)).2 howed
  | accepting => exact Or.inl (h.named t (by rw [hstage]; rfl))
  | reading pieces => exact Or.inl (h.named t (by rw [hstage]; rfl))
  | closing pieces =>
      cases pieces with
      | some pieces => exact Or.inl (h.named t (by rw [hstage]; rfl))
      | none =>
          have hone : begunBy t log ++ (s.talk t).owed = [-1] := by
            rw [hsaid, hstage]
            rfl
          rcases List.append_eq_singleton_iff.mp hone with ⟨_, hlast⟩ | ⟨_, hlast⟩
          · exact Or.inr hlast
          · exact absurd hlast howed
  | ended pieces => exact absurd (h.ended t pieces hstage).1 howed

end Spoken

/-! ## Steps at the list -/

/-- No broadcast begins in the step. -/
def CallbackInput.Calm : CallbackInput C T → Prop
  | .beginBroadcast .. => False
  | _ => True

theorem Callbacks.step_calm (s : Callbacks C T) {i : CallbackInput C T} (hi : i.Calm) :
    begunIn (s.step i).2 = [] ∧ ∀ b, (s.step i).1.broadcast = some b →
      ∃ b', s.broadcast = some b' ∧ b'.thread = b.thread := by
  have hkept {b : Broadcast C T} (hb : s.broadcast = some b) :
      ∃ b', s.broadcast = some b' ∧ b'.thread = b.thread := ⟨b, hb, rfl⟩
  cases i with
  | registerCallback cb =>
      cases cb with
      | none => exact ⟨rfl, fun _ => hkept⟩
      | some cb =>
          simp only [Callbacks.step, Callbacks.locked, Callbacks.register]
          split
          · exact ⟨rfl, fun _ => hkept⟩
          · split
            · exact ⟨rfl, fun _ => hkept⟩
            · exact ⟨rfl, fun _ => hkept⟩
  | unregisterCallback cb =>
      cases cb with
      | none => exact ⟨rfl, fun _ => hkept⟩
      | some cb =>
          simp only [Callbacks.step, Callbacks.locked]
          split
          · exact ⟨rfl, fun _ => hkept⟩
          · exact ⟨rfl, fun _ => hkept⟩
  | beginBroadcast t percent items => exact hi.elim
  | onUpgradingUpdate t =>
      simp only [Callbacks.step, Callbacks.onUpgradingUpdate]
      split
      · next holder percent cb left hbroadcast =>
          split
          · refine ⟨?_, fun b hb => ⟨_, hbroadcast, by cases hb; rfl⟩⟩
            split <;> rfl
          · exact ⟨rfl, fun _ => hkept⟩
      · exact ⟨rfl, fun _ => hkept⟩
  | finishBroadcast t =>
      simp only [Callbacks.step, Callbacks.finishBroadcast]
      split
      · split
        · exact ⟨rfl, fun b hb => absurd hb (by simp)⟩
        · exact ⟨rfl, fun _ => hkept⟩
      · exact ⟨rfl, fun _ => hkept⟩
  | dies cb => exact ⟨rfl, fun _ => hkept⟩
  | deathNoticed cb => exact ⟨rfl, fun _ => hkept⟩

namespace Spoken

variable {s : FlashProgress C T} {log : List (ProgressEvent C T)} {t : T}

theorem calm (h : Spoken s log) {i : CallbackInput C T} (hi : i.Calm) :
    Spoken (s.onList i).1 (log ++ (s.onList i).2) where
  said u := by
    have hnone : begunBy u (s.onList i).2 = [] := by
      rw [begunBy, FlashProgress.onList, ofTalker_map]
      split
      · exact (s.callbacks.step_calm hi).1
      · rfl
    rw [begunBy_append, hnone, List.append_nil]
    exact h.said u
  named := h.named
  ended u pieces hu := by
    obtain ⟨howed, htelling⟩ := h.ended u pieces hu
    refine ⟨howed, ?_⟩
    cases hb : (s.callbacks.step i).1.broadcast with
    | none => simp [FlashProgress.telling, FlashProgress.onList, hb]
    | some b =>
        obtain ⟨b', hb', hthread⟩ := (s.callbacks.step_calm hi).2 b hb
        simp only [FlashProgress.telling, FlashProgress.onList, hb, hb', Option.any_some, hthread]
          at htelling ⊢
        exact htelling

theorem begins (h : Spoken s log) (items : List C) :
    Spoken (s.beginBroadcast t items).1 (log ++ (s.beginBroadcast t items).2) := by
  rw [FlashProgress.beginBroadcast]
  split
  · rwa [List.append_nil]
  · next percent owed howed =>
      split
      · rwa [List.append_nil]
      · next hfree =>
          have hstep : (s.move t (s.talk t).stage owed).callbacks.step
              (.beginBroadcast t percent items) =
                ({ s.callbacks with broadcast := some ⟨t, percent, items.reverse⟩ },
                  [.begun percent]) := if_neg hfree
          have hothers {u : T} (hu : u ≠ t) :
              (s.move t (s.talk t).stage owed).talk u = s.talk u := by
            simp [FlashProgress.move, hu]
          have hbegun (u : T) : begunBy u ([(some t, .begun percent)] :
              List (ProgressEvent C T)) = if u = t then [percent] else [] := by
            by_cases hu : u = t
            · simp [begunBy, ofTalker, begunIn, hu]
            · simp [begunBy, ofTalker, begunIn, hu, Ne.symm hu]
          rw [FlashProgress.onList, hstep]
          refine ⟨fun u => ?_, fun u hu => ?_, fun u pieces hu => ?_⟩
          · show begunBy u (log ++ [(some t, .begun percent)]) ++ _ = _
            rw [begunBy_append, hbegun]
            by_cases hu : u = t
            · subst hu
              have hsaid := h.said u
              rw [howed] at hsaid
              simpa [FlashProgress.move] using hsaid
            · simpa [FlashProgress.move, hu] using h.said u
          · apply h.named u
            by_cases hut : u = t
            · subst hut
              simpa [FlashProgress.move] using hu
            · simpa [FlashProgress.move, hut] using hu
          · by_cases hut : u = t
            · subst hut
              have hended := (h.ended u pieces (by simpa [FlashProgress.move] using hu)).1
              exact absurd (howed.symm.trans hended) (by simp)
            · have hended := h.ended u pieces (by simpa [FlashProgress.move, hut] using hu)
              refine ⟨by simpa [FlashProgress.move, hut] using hended.1, ?_⟩
              simp [FlashProgress.telling, Ne.symm hut]

theorem act (h : Spoken s log) (i : ProgressInput C T) :
    Spoken (s.act i).1 (log ++ (s.act i).2) := by
  have hproceed (i : ProgressInput C T) : Spoken (s.proceed i) (log ++ []) := by
    rw [List.append_nil]
    exact h.proceed i
  cases i with
  | beginBroadcast t items => exact h.begins items
  | onUpgradingUpdate t => exact h.calm trivial
  | finishBroadcast t => exact h.calm trivial
  | registerCallback cb => exact h.calm trivial
  | unregisterCallback cb => exact h.calm trivial
  | dies cb => exact h.calm trivial
  | deathNoticed cb => exact h.calm trivial
  | startTalker t => exact hproceed (.startTalker t)
  | bind t made => exact hproceed (.bind t made)
  | accept t client => exact hproceed (.accept t client)
  | read t piece => exact hproceed (.read t piece)
  | leave t ending => exact hproceed (.leave t ending)
  | close t => exact hproceed (.close t)

theorem step (h : Spoken s log) (i : ProgressInput C T) :
    Spoken (s.step i).1 (log ++ (s.step i).2) := by
  rw [FlashProgress.step]
  split
  · rwa [List.append_nil]
  · exact h.act i

end Spoken

theorem reach_spoken {s : FlashProgress C T} {log : List (ProgressEvent C T)}
    (h : flashProgress.Reach ProgressInput.Possible FlashProgress.idle s log) : Spoken s log :=
  h.invariant Spoken.idle fun _ _ i hs _ => hs.step i

end Model

end VRAdmin
