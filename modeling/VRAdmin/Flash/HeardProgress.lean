import VRAdmin.Flash.FlashProgress

/-! # Flash progress as the callbacks hear it

What a callback is called with, talker by talker: the list's own runs show which
broadcasts reach it, the talkers' which values these carry.
-/

namespace VRAdmin

open Foundation TalkToDfuUtil

section Model

variable {C T : Type} [DecidableEq C] [DecidableEq T]

/-! ## The list on its own -/

omit [DecidableEq C] in
theorem FlashProgress.proceed_callbacks (s : FlashProgress C T) (i : ProgressInput C T) :
    (s.proceed i).callbacks = s.callbacks := by
  cases i with
  | startTalker t => simp only [proceed]; split <;> rfl
  | bind t made =>
      simp only [proceed, FlashProgress.bind]
      split
      · split <;> rfl
      · rfl
  | accept t client =>
      simp only [proceed, FlashProgress.accept]
      split
      · split <;> rfl
      · rfl
  | read t piece =>
      simp only [proceed, FlashProgress.read]
      split
      · split
        · split <;> rfl
        · rfl
      · rfl
  | leave t ending =>
      simp only [proceed]
      split
      · split <;> rfl
      · rfl
  | close t =>
      simp only [proceed]
      split
      · split <;> rfl
      · rfl
  | _ => rfl

/-- One step of the list, its events with the talker whose step it is. -/
def OneStep (s : Callbacks C T) (c : CallbackInput C T)
    (r : FlashProgress C T × List (ProgressEvent C T)) : Prop :=
  r.1.callbacks = (s.step c).1 ∧ r.2 = (s.step c).2.map (c.thread, ·)

theorem FlashProgress.beginBroadcast_list (s : FlashProgress C T) (t : T) (items : List C) :
    ((s.beginBroadcast t items).1.callbacks = s.callbacks ∧ (s.beginBroadcast t items).2 = []) ∨
      ∃ percent, OneStep s.callbacks (.beginBroadcast t percent items)
        (s.beginBroadcast t items) := by
  rw [beginBroadcast]
  split
  · exact Or.inl ⟨rfl, rfl⟩
  · next percent owed howed =>
      split
      · exact Or.inl ⟨rfl, rfl⟩
      · exact Or.inr ⟨percent, rfl, rfl⟩

/-- A step leaves the list alone or is one step of it, which is then possible there. -/
theorem FlashProgress.step_list {s : FlashProgress C T} {i : ProgressInput C T}
    {log : List (ProgressEvent C T)} (hi : i.Possible s log)
    (past : List (CallbackEvent C)) :
    ((s.step i).1.callbacks = s.callbacks ∧ (s.step i).2 = []) ∨
      ∃ c : CallbackInput C T, c.Possible s.callbacks past ∧ OneStep s.callbacks c (s.step i) := by
  rw [FlashProgress.step]
  split
  · exact Or.inl ⟨rfl, rfl⟩
  · cases i with
    | beginBroadcast t items =>
        rcases s.beginBroadcast_list t items with hsame | ⟨percent, hone⟩
        · exact Or.inl hsame
        · exact Or.inr ⟨.beginBroadcast t percent items, hi, hone⟩
    | onUpgradingUpdate t => exact Or.inr ⟨.onUpgradingUpdate t, trivial, rfl, rfl⟩
    | finishBroadcast t => exact Or.inr ⟨.finishBroadcast t, trivial, rfl, rfl⟩
    | registerCallback cb => exact Or.inr ⟨.registerCallback cb, trivial, rfl, rfl⟩
    | unregisterCallback cb => exact Or.inr ⟨.unregisterCallback cb, trivial, rfl, rfl⟩
    | dies cb => exact Or.inr ⟨.dies cb, trivial, rfl, rfl⟩
    | deathNoticed cb => exact Or.inr ⟨.deathNoticed cb, hi, rfl, rfl⟩
    | startTalker t => exact Or.inl ⟨s.proceed_callbacks (.startTalker t), rfl⟩
    | bind t made => exact Or.inl ⟨s.proceed_callbacks (.bind t made), rfl⟩
    | accept t client => exact Or.inl ⟨s.proceed_callbacks (.accept t client), rfl⟩
    | read t piece => exact Or.inl ⟨s.proceed_callbacks (.read t piece), rfl⟩
    | leave t ending => exact Or.inl ⟨s.proceed_callbacks (.leave t ending), rfl⟩
    | close t => exact Or.inl ⟨s.proceed_callbacks (.close t), rfl⟩

omit [DecidableEq C] [DecidableEq T] in
theorem map_snd_label (thread : Option T) (events : List (CallbackEvent C)) :
    (events.map (thread, ·)).map Prod.snd = events := by
  rw [List.map_map]
  exact List.map_id events

/-- What the list sees of a run is a run of its own. -/
theorem reach_callbacks {s : FlashProgress C T} {log : List (ProgressEvent C T)}
    (h : flashProgress.Reach ProgressInput.Possible FlashProgress.idle s log) :
    callbackList.Reach CallbackInput.Possible Callbacks.start s.callbacks (log.map Prod.snd) := by
  refine h.view FlashProgress.callbacks Prod.snd fun s log i hi => ?_
  show ∃ is, _ ∧ _ = ((s.step i).1.callbacks, (s.step i).2.map Prod.snd)
  rcases FlashProgress.step_list hi (log.map Prod.snd) with
    ⟨hsame, hnone⟩ | ⟨c, hc, hlist, hevents⟩
  · refine ⟨[], trivial, ?_⟩
    rw [hsame, hnone]
    rfl
  · refine ⟨[c], ⟨hc, trivial⟩, ?_⟩
    rw [hlist, hevents, map_snd_label, Machine.run_cons, Machine.run_nil, List.append_nil]
    rfl

/-! ## What a callback hears of a talker -/

/-- What the talker's broadcast has still to bring to the callback. -/
def Callbacks.pendingFrom (s : Callbacks C T) (t : T) (cb : C) : List Int32 :=
  match s.broadcast with
  | none => []
  | some b => if b.thread = t then s.pending cb else []

/-- Over a step what was pending or began is heard or pending; it is lost only if the
callback is dead or not registered. -/
def Hears (t : T) (cb : C) (s : Callbacks C T) (events : List (ProgressEvent C T))
    (s' : Callbacks C T) : Prop :=
  s.pendingFrom t cb ++ begunBy t events = updatesFrom t cb events ++ s'.pendingFrom t cb ∨
    updatesFrom t cb events ++ s'.pendingFrom t cb = [] ∧ (cb ∉ s.mCallbacks ∨ cb ∈ s.dead)

section Hearing

variable {s s' : Callbacks C T} {past : List (CallbackEvent C)} {t : T} {cb : C}

theorem pendingFrom_congr (h : s'.broadcast = s.broadcast) :
    s'.pendingFrom t cb = s.pendingFrom t cb := by
  rw [Callbacks.pendingFrom, Callbacks.pendingFrom, Callbacks.pending, Callbacks.pending, h]

theorem Hears.foreign {thread : Option T} (hthread : thread ≠ some t)
    (events : List (CallbackEvent C)) (hpending : s'.pendingFrom t cb = s.pendingFrom t cb) :
    Hears t cb s (events.map (thread, ·)) s' := by
  apply Or.inl
  rw [begunBy, updatesFrom, ofTalker_map, if_neg hthread, hpending]
  exact List.append_nil _

theorem Hears.unchanged : Hears t cb s [] s := Or.inl (List.append_nil _)

theorem Hears.begins (h : s.broadcast = none) {thread : T} {percent : Int32} {items : List C}
    (hitems : items.Perm s.mCallbacks) :
    Hears t cb s [(some thread, .begun percent)]
      { s with broadcast := some ⟨thread, percent, items.reverse⟩ } := by
  have hnone : s.pendingFrom t cb = [] := by rw [Callbacks.pendingFrom, h]
  by_cases ht : thread = t
  · subst ht
    by_cases hcb : cb ∈ items
    · apply Or.inl
      rw [hnone]
      simp [begunBy, updatesFrom, ofTalker, begunIn, updates, CallbackEvent.updateOf,
        Callbacks.pendingFrom, Callbacks.pending, hcb]
    · refine Or.inr ⟨?_, Or.inl fun hlisted => hcb (hitems.mem_iff.mpr hlisted)⟩
      simp [updatesFrom, ofTalker, updates, CallbackEvent.updateOf, Callbacks.pendingFrom,
        Callbacks.pending, hcb]
  · apply Hears.foreign (by simpa using ht) [.begun percent]
    rw [hnone]
    simp [Callbacks.pendingFrom, ht]

theorem Hears.updates {thread : T} {percent : Int32} {d : C} {left : List C}
    (h : s.broadcast = some ⟨thread, percent, d :: left⟩) (hnodup : (d :: left).Nodup) :
    Hears t cb s
      [(some thread, if s.dead.contains d then .remoteException d else .updated d percent)]
      { s with broadcast := some ⟨thread, percent, left⟩ } := by
  by_cases ht : thread = t
  · subst ht
    have hold : s.pendingFrom thread cb = if cb ∈ d :: left then [percent] else [] := by
      simp only [Callbacks.pendingFrom, Callbacks.pending, h, if_true]
    have hnew : Callbacks.pendingFrom { s with broadcast := some ⟨thread, percent, left⟩ } thread
        cb = if cb ∈ left then [percent] else [] := by
      simp only [Callbacks.pendingFrom, Callbacks.pending, if_true]
    by_cases hcb : cb = d
    · subst hcb
      rw [if_neg (List.nodup_cons.mp hnodup).1] at hnew
      rw [if_pos List.mem_cons_self] at hold
      by_cases hdead : cb ∈ s.dead
      · refine Or.inr ⟨?_, Or.inr hdead⟩
        rw [hnew]
        simp [updatesFrom, ofTalker, VRAdmin.updates, CallbackEvent.updateOf, hdead]
      · apply Or.inl
        rw [hnew, hold]
        simp [begunBy, begunIn, updatesFrom, ofTalker, VRAdmin.updates, CallbackEvent.updateOf,
          hdead]
    · have hmem : cb ∈ d :: left ↔ cb ∈ left := by simp [hcb]
      apply Or.inl
      rw [hnew, hold]
      simp only [hmem]
      by_cases hdead : d ∈ s.dead
      · simp [begunBy, begunIn, updatesFrom, ofTalker, VRAdmin.updates, CallbackEvent.updateOf,
          hdead]
      · simp [begunBy, begunIn, updatesFrom, ofTalker, VRAdmin.updates, CallbackEvent.updateOf,
          hdead, Ne.symm hcb]
  · apply Hears.foreign (by simpa using ht) [_]
    simp [Callbacks.pendingFrom, h, ht]

theorem Hears.finishes {thread : T} {percent : Int32}
    (h : s.broadcast = some ⟨thread, percent, []⟩) :
    Hears t cb s [(some thread, .finished)] { s with broadcast := none } := by
  have hold : s.pendingFrom t cb = [] := by
    simp [Callbacks.pendingFrom, Callbacks.pending, h]
  apply Or.inl
  rw [hold]
  by_cases ht : thread = t
  · simp [begunBy, begunIn, updatesFrom, ofTalker, VRAdmin.updates, CallbackEvent.updateOf,
      Callbacks.pendingFrom, ht]
  · simp [begunBy, begunIn, updatesFrom, ofTalker, VRAdmin.updates, Callbacks.pendingFrom, ht]

theorem step_hears (hs : ListSound s past) {c : CallbackInput C T} (hc : c.Possible s past) :
    Hears t cb s ((s.step c).2.map (c.thread, ·)) (s.step c).1 := by
  cases c with
  | registerCallback d =>
      refine Hears.foreign (by simp [CallbackInput.thread]) _ (pendingFrom_congr ?_)
      cases d with
      | none => rfl
      | some d =>
          simp only [Callbacks.step, Callbacks.locked, Callbacks.register]
          split
          · rfl
          · split <;> rfl
  | unregisterCallback d =>
      refine Hears.foreign (by simp [CallbackInput.thread]) _ (pendingFrom_congr ?_)
      cases d with
      | none => rfl
      | some d =>
          simp only [Callbacks.step, Callbacks.locked]
          split <;> rfl
  | beginBroadcast thread percent items =>
      have hitems : items.Perm s.mCallbacks := hc
      simp only [Callbacks.step, Callbacks.locked]
      split
      · exact Hears.unchanged
      · next hfree => exact Hears.begins (by simpa using hfree) hitems
  | onUpgradingUpdate thread =>
      simp only [Callbacks.step, Callbacks.onUpgradingUpdate]
      split
      · next holder percent d left hbroadcast =>
          split
          · next hthread =>
              subst hthread
              exact Hears.updates hbroadcast (hs.left_nodup _ hbroadcast)
          · exact Hears.unchanged
      · exact Hears.unchanged
  | finishBroadcast thread =>
      simp only [Callbacks.step, Callbacks.finishBroadcast]
      split
      · next holder percent hbroadcast =>
          split
          · next hthread =>
              subst hthread
              exact Hears.finishes hbroadcast
          · exact Hears.unchanged
      · exact Hears.unchanged
  | dies d => exact Hears.foreign (by simp [CallbackInput.thread]) _ rfl
  | deathNoticed d => exact Hears.foreign (by simp [CallbackInput.thread]) _ rfl

end Hearing

theorem FlashProgress.step_hears {s : FlashProgress C T} {past : List (CallbackEvent C)}
    (hs : ListSound s.callbacks past) {i : ProgressInput C T}
    {log : List (ProgressEvent C T)} (hi : i.Possible s log) (t : T) (cb : C) :
    Hears t cb s.callbacks (s.step i).2 (s.step i).1.callbacks := by
  rcases step_list hi past with ⟨hsame, hnone⟩ | ⟨c, hc, hlist, hevents⟩
  · rw [hsame, hnone]
    exact Hears.unchanged
  · rw [hlist, hevents]
    exact VRAdmin.step_hears hs hc

/-- Whatever a callback does, it hears of each talker some of what that says, in order. -/
theorem heard_sublist {s : FlashProgress C T} {log : List (ProgressEvent C T)}
    (h : flashProgress.Reach ProgressInput.Possible FlashProgress.idle s log) (t : T) (cb : C) :
    (updatesFrom t cb log ++ s.callbacks.pendingFrom t cb).Sublist (begunBy t log) := by
  induction h with
  | start => exact List.nil_sublist _
  | @next s log i hreach hi ih =>
      rw [updatesFrom_append, begunBy_append, List.append_assoc]
      rcases FlashProgress.step_hears (reach_listSound (reach_callbacks hreach)) hi t cb with
        hkept | ⟨hlost, _⟩
      · have hall := ih.append (List.Sublist.refl (begunBy t (s.step i).2))
        rw [List.append_assoc, hkept] at hall
        exact hall
      · have hpart := (List.sublist_append_left _ _).trans ih
        show (_ ++ (updatesFrom t cb (s.step i).2 ++
          (s.step i).1.callbacks.pendingFrom t cb)).Sublist _
        rw [hlost, List.append_nil]
        exact hpart.trans (List.sublist_append_left _ _)

theorem FlashProgress.step_dead {s : FlashProgress C T} {i : ProgressInput C T}
    {log : List (ProgressEvent C T)} (hi : i.Possible s log) :
    s.callbacks.dead ⊆ (s.step i).1.callbacks.dead := by
  rcases step_list hi [] with ⟨hsame, _⟩ | ⟨c, _, hlist, _⟩
  · rw [hsame]
    exact List.Subset.refl _
  · rw [hlist]
    exact VRAdmin.step_dead s.callbacks c

theorem reach_dead {inputs : List (ProgressInput C T)} {s : FlashProgress C T}
    {log : List (ProgressEvent C T)}
    (hinputs : flashProgress.Admits ProgressInput.Possible s log inputs) :
    s.callbacks.dead ⊆ (flashProgress.run s inputs).1.callbacks.dead := by
  induction inputs generalizing s log with
  | nil => exact List.Subset.refl _
  | cons i rest ih => exact List.Subset.trans (FlashProgress.step_dead hinputs.1) (ih hinputs.2)

theorem FlashProgress.step_registered {s : FlashProgress C T} {i : ProgressInput C T}
    {log : List (ProgressEvent C T)} {cb : C}
    (h : flashProgress.Reach ProgressInput.Possible FlashProgress.idle s log)
    (hi : i.Possible s log) (hcb : cb ∈ s.callbacks.mCallbacks)
    (hstays : ∀ e ∈ (s.step i).2, e.2 ≠ .unregistered cb) :
    cb ∈ (s.step i).1.callbacks.mCallbacks := by
  have hbefore := ((reach_listSound (reach_callbacks h)).served cb).member
  have hafter := ((reach_listSound (reach_callbacks (h.next hi))).served cb).member
  have hreg : (dueFrom cb (log.map Prod.snd)).1 = true := by
    rw [hbefore]
    exact decide_eq_true hcb
  have hnot : .unregistered cb ∉ (s.step i).2.map Prod.snd := by
    intro hmem
    obtain ⟨e, he, heq⟩ := List.mem_map.mp hmem
    exact hstays e he heq
  rw [List.map_append] at hafter
  have hdue : (dueFrom cb (log.map Prod.snd ++ (s.step i).2.map Prod.snd)).1 = true := by
    rw [dueFrom_registered hreg hnot]
  exact of_decide_eq_true (hafter.symm.trans hdue)

/-- While it stays registered and lives, a callback hears all of it. -/
theorem heard_all {t : T} {cb : C} (inputs : List (ProgressInput C T)) {s : FlashProgress C T}
    {log : List (ProgressEvent C T)}
    (h : flashProgress.Reach ProgressInput.Possible FlashProgress.idle s log)
    (hinputs : flashProgress.Admits ProgressInput.Possible s log inputs)
    (hcb : cb ∈ s.callbacks.mCallbacks)
    (hlive : cb ∉ (flashProgress.run s inputs).1.callbacks.dead)
    (hstays : ∀ e ∈ (flashProgress.run s inputs).2, e.2 ≠ .unregistered cb) :
    s.callbacks.pendingFrom t cb ++ begunBy t (flashProgress.run s inputs).2 =
      updatesFrom t cb (flashProgress.run s inputs).2 ++
        (flashProgress.run s inputs).1.callbacks.pendingFrom t cb := by
  induction inputs generalizing s log with
  | nil => exact List.append_nil _
  | cons i rest ih =>
      have hfirst : ∀ e ∈ (s.step i).2, e.2 ≠ .unregistered cb := fun e he =>
        hstays e (List.mem_append_left _ he)
      have hrest := ih (h.next hinputs.1) hinputs.2
        (FlashProgress.step_registered h hinputs.1 hcb hfirst) hlive
        fun e he => hstays e (List.mem_append_right _ he)
      have hstep : s.callbacks.pendingFrom t cb ++ begunBy t (s.step i).2 =
          updatesFrom t cb (s.step i).2 ++ (s.step i).1.callbacks.pendingFrom t cb := by
        rcases FlashProgress.step_hears (reach_listSound (reach_callbacks h)) hinputs.1 t cb with
          hkept | ⟨_, hout | hdead⟩
        · exact hkept
        · exact absurd hcb hout
        · exact absurd (reach_dead hinputs hdead) hlive
      calc s.callbacks.pendingFrom t cb ++ begunBy t (flashProgress.run s (i :: rest)).2
          = (s.callbacks.pendingFrom t cb ++ begunBy t (s.step i).2) ++
              begunBy t (flashProgress.run (s.step i).1 rest).2 := by
            rw [List.append_assoc, ← begunBy_append]
            rfl
        _ = updatesFrom t cb (s.step i).2 ++ ((s.step i).1.callbacks.pendingFrom t cb ++
              begunBy t (flashProgress.run (s.step i).1 rest).2) := by
            rw [hstep, List.append_assoc]
        _ = updatesFrom t cb (flashProgress.run s (i :: rest)).2 ++
              (flashProgress.run s (i :: rest)).1.callbacks.pendingFrom t cb := by
            rw [show (flashProgress.run s (i :: rest)).2 =
              (s.step i).2 ++ (flashProgress.run (s.step i).1 rest).2 from rfl,
              updatesFrom_append, List.append_assoc]
            exact congrArg _ hrest

/-- The whole feature. However talkers, registrations and deaths interleave, a talker
broadcasts what `talkWithSocket` says of the pieces it reads; only the holder of the name
has anything else than a -1 to broadcast; each callback hears some of what a talker says,
in order, and a callback that stays registered and lives while a talker is at work hears
its whole session. -/
theorem flash_heard {s : FlashProgress C T} {log : List (ProgressEvent C T)}
    (h : flashProgress.Reach ProgressInput.Possible FlashProgress.idle s log) :
    (∀ t, begunBy t log ++ (s.talk t).owed = (s.talk t).stage.said) ∧
    (∀ t pieces, (s.talk t).stage = .ended pieces →
      begunBy t log = talkWithSocket (sessionOf pieces)) ∧
    (∀ t, (s.talk t).owed ≠ [] → s.vrotalib = some t ∨ (s.talk t).owed = [-1]) ∧
    (∀ t cb, (updatesFrom t cb log).Sublist (begunBy t log)) ∧
    ∀ inputs, flashProgress.Admits ProgressInput.Possible s log inputs →
      let r := flashProgress.run s inputs
      ∀ cb ∈ s.callbacks.mCallbacks, cb ∉ r.1.callbacks.dead →
        (∀ e ∈ r.2, e.2 ≠ .unregistered cb) →
      ∀ t pieces, begunBy t log = [] → (r.1.talk t).stage = .ended pieces →
        updatesFrom t cb r.2 = talkWithSocket (sessionOf pieces) := by
  have hspoken := reach_spoken h
  refine ⟨hspoken.said, fun t pieces => hspoken.whole, fun t => hspoken.nameless, ?_, ?_⟩
  · intro t cb
    exact (List.sublist_append_left _ _).trans (heard_sublist h t cb)
  · intro inputs hinputs r cb hcb hlive hstays t pieces hnone hended
    have hafter := reach_spoken (h.run hinputs)
    have hall := heard_all (t := t) inputs h hinputs hcb hlive hstays
    have hbefore : s.callbacks.pendingFrom t cb = [] := by
      have hsub := heard_sublist h t cb
      rw [hnone] at hsub
      exact (List.append_eq_nil_iff.mp (List.sublist_nil.mp hsub)).2
    have hdone : r.1.callbacks.pendingFrom t cb = [] := by
      have htelling := (hafter.ended t pieces hended).2
      rw [Callbacks.pendingFrom]
      cases hb : r.1.callbacks.broadcast with
      | none => rfl
      | some b =>
          rw [FlashProgress.telling, hb, Option.any_some] at htelling
          exact if_neg (of_decide_eq_false htelling)
    have hwhole := hafter.whole hended
    rw [begunBy_append, hnone, List.nil_append] at hwhole
    rw [hbefore, hdone, List.nil_append, List.append_nil] at hall
    exact hall.symm.trans hwhole

end Model

/-- The first talker reports 2 of 2 bytes while a second one, started for a later call,
finds the name taken; a callback hears both. -/
def strayTalker : List (ProgressInput Nat Bool) :=
  [.startTalker false, .bind false true, .accept false true, .startTalker true, .bind true true,
    .read false (frame 2), .beginBroadcast false [1], .onUpgradingUpdate false,
    .finishBroadcast false, .beginBroadcast true [1], .read false (frame 1),
    .onUpgradingUpdate true, .finishBroadcast true, .close true, .beginBroadcast false [1],
    .onUpgradingUpdate false, .finishBroadcast false, .read false (frame 2),
    .beginBroadcast false [1], .onUpgradingUpdate false, .finishBroadcast false,
    .leave false .endOfStream, .close false]

theorem flash_heard_stray :
    let s := (flashProgress.run FlashProgress.idle
      [(.registerCallback (some 1) : ProgressInput Nat Bool)]).1
    let r := flashProgress.run s strayTalker
    updatesFrom false 1 r.2 = [0, 50, 100] ∧ updatesFrom true 1 r.2 = [-1] := by
  intro s r
  have hreach : flashProgress.Reach ProgressInput.Possible FlashProgress.idle s
      ([] ++ (flashProgress.run FlashProgress.idle
        [(.registerCallback (some 1) : ProgressInput Nat Bool)]).2) :=
    Machine.Reach.start.run ⟨trivial, trivial⟩
  have hinputs : flashProgress.Admits ProgressInput.Possible s
      ([] ++ (flashProgress.run FlashProgress.idle
        [(.registerCallback (some 1) : ProgressInput Nat Bool)]).2) strayTalker := by
    decide
  have hheard := (flash_heard hreach).2.2.2.2 strayTalker hinputs 1 (by decide) (by decide)
    (by decide)
  refine ⟨?_, ?_⟩
  · rw [hheard false (some [frame 2, frame 1, frame 2]) (by decide) (by decide)]
    decide
  · rw [hheard true none (by decide) (by decide)]
    decide

end VRAdmin
