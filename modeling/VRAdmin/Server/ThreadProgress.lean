import VRAdmin.Foundation.Progress
import VRAdmin.Server.Thread

/-! # Threads get started

What keeps `gStartupMutex` from being free is an object under construction, whose
creator can always go on, or a thread about to call `run`. So from every state any
object can be made and started and any thread that exists can reach its `run`, as long
as each creator starts an object before it makes the next one: in the constructor of
another object it would wait for itself. And an object that is never started stops all
others for good.
-/

namespace VRAdmin

open Foundation

/-- The steps that the creator has left. -/
def Making.stepsLeft : Making → Nat
  | .notMade => 7
  | .startupLocked => 6
  | .created => 5
  | .mapLocked => 4
  | .inserted => 3
  | .baseReady => 2
  | .constructed => 1
  | .started => 0

/-- The steps that the thread has left before it is in `run`. -/
def Entry.stepsLeft : Entry → Nat
  | .absent => 4
  | .created => 3
  | .locked => 2
  | .unlocked => 1
  | .running => 0

theorem Making.eq_started {st : Making} (h : st.stepsLeft = 0) : st = .started := by
  cases st with
  | started => rfl
  | _ => exact absurd h (by simp [Making.stepsLeft])

theorem Entry.eq_running {st : Entry} (h : st.stepsLeft = 0) : st = .running := by
  cases st with
  | running => rfl
  | _ => exact absurd h (by simp [Entry.stepsLeft])

section Steps

variable {O T : Type} [DecidableEq O] {creator thread : O → T} {s : Threads O T} {o : O}

/-- A held mutex has the reason that it is held for. -/
structure Justified (s : Threads O T) : Prop where
  startup : s.gStartupMutex ≠ none → ∃ c, Claimant.claims s.making s.entry c
  map : s.gMutex ≠ none → ∃ o, (s.making o).registering = true

omit [DecidableEq O] in
theorem Justified.idle : Justified (Threads.idle : Threads O T) :=
  ⟨fun h => absurd rfl h, fun h => absurd rfl h⟩

theorem claims_making_kept {st : Making} {c : Claimant O}
    (hc : Claimant.claims s.making s.entry c)
    (hst : (s.making o).underWay = true → st.underWay = true) :
    Claimant.claims (Function.update s.making o st) s.entry c := by
  cases c with
  | making d =>
      by_cases hd : d = o
      · subst hd
        simpa [Claimant.claims] using hst hc
      · simpa [Claimant.claims, hd] using hc
  | entering d => exact hc

theorem claims_entry_kept {st : Entry} {c : Claimant O}
    (hc : Claimant.claims s.making s.entry c) (hst : s.entry o ≠ .locked) :
    Claimant.claims s.making (Function.update s.entry o st) c := by
  cases c with
  | making d => exact hc
  | entering d =>
      by_cases hd : d = o
      · subst hd
        exact absurd hc hst
      · simpa [Claimant.claims, hd] using hc

theorem registering_kept {st : Making} {d : O} (hd : (s.making d).registering = true)
    (hst : (s.making o).registering = true → st.registering = true) :
    (Function.update s.making o st d).registering = true := by
  by_cases hdo : d = o
  · subst hdo
    simpa using hst hd
  · simpa [hdo] using hd

namespace Justified

theorem makes (h : Justified s) {st : Making} (objects : List O)
    (hunder : (s.making o).underWay = true → st.underWay = true)
    (hreg : (s.making o).registering = true → st.registering = true) :
    Justified
      ⟨s.gStartupMutex, s.gMutex, objects, Function.update s.making o st, s.entry⟩ where
  startup hheld := by
    obtain ⟨c, hc⟩ := h.startup hheld
    exact ⟨c, claims_making_kept hc hunder⟩
  map hheld := by
    obtain ⟨d, hd⟩ := h.map hheld
    exact ⟨d, registering_kept hd hreg⟩

theorem creator_step (hs : HandOff creator thread s) (h : Justified s) (o : O) (created : Bool) :
    Justified ((threads creator thread).step s (.creator o created)).1 := by
  simp only [threads, Threads.step]
  cases ho : s.making o with
  | notMade =>
      cases hfree : s.gStartupMutex with
      | some t => exact h
      | none =>
          have hmakes : Justified (s.make o .startupLocked) :=
            h.makes s.gThreads (by rw [ho]; decide) (by rw [ho]; decide)
          exact ⟨fun _ => ⟨.making o, by simp [Claimant.claims, Threads.make, Making.underWay]⟩,
            hmakes.map⟩
  | startupLocked =>
      cases created with
      | true =>
          have hspawned : Justified (s.enter o .created) := by
            refine ⟨fun hheld => ?_, h.map⟩
            obtain ⟨c, hc⟩ := h.startup hheld
            refine ⟨c, claims_entry_kept hc fun hlocked => ?_⟩
            have hstarted := hs.through o (by rw [hlocked]; rfl)
            rw [ho] at hstarted
            exact absurd hstarted (by decide)
          have hmaking : (s.enter o .created).making o = .startupLocked := ho
          exact hspawned.makes _ (fun _ => rfl) (by rw [hmaking]; decide)
      | false => exact h.makes _ (fun _ => rfl) (by rw [ho]; decide)
  | created =>
      cases hfree : s.gMutex with
      | some t => exact h
      | none =>
          have hmakes : Justified (s.make o .mapLocked) :=
            h.makes s.gThreads (fun _ => rfl) (fun _ => rfl)
          exact ⟨hmakes.startup, fun _ => ⟨o, by simp [Threads.make, Making.registering]⟩⟩
  | mapLocked => exact h.makes _ (fun _ => rfl) (fun _ => rfl)
  | inserted =>
      refine ⟨fun hheld => ?_, fun hheld => absurd rfl hheld⟩
      obtain ⟨c, hc⟩ := h.startup hheld
      exact ⟨c, claims_making_kept hc fun _ => rfl⟩
  | baseReady => exact h.makes _ (fun _ => rfl) (by rw [ho]; decide)
  | constructed =>
      refine ⟨fun hheld => absurd rfl hheld, fun hheld => ?_⟩
      obtain ⟨d, hd⟩ := h.map hheld
      exact ⟨d, registering_kept hd (by rw [ho]; decide)⟩
  | started => exact h

theorem entry_step (h : Justified s) (o : O) :
    Justified ((threads creator thread).step s (.entry o)).1 := by
  simp only [threads, Threads.step]
  cases ho : s.entry o with
  | absent => exact h
  | created =>
      cases hfree : s.gStartupMutex with
      | some t => exact h
      | none => exact ⟨fun _ => ⟨.entering o, by simp [Claimant.claims, Threads.enter]⟩, h.map⟩
  | locked => exact ⟨fun hheld => absurd rfl hheld, h.map⟩
  | unlocked =>
      refine ⟨fun hheld => ?_, h.map⟩
      obtain ⟨c, hc⟩ := h.startup hheld
      exact ⟨c, claims_entry_kept hc (by rw [ho]; decide)⟩
  | running => exact h

end Justified

/-! ## The next step of a party -/

/-- The two mutexes are held for exactly one reason each, or free. -/
structure Accounted (creator thread : O → T) (s : Threads O T) : Prop where
  handOff : HandOff creator thread s
  justified : Justified s

namespace Accounted

theorem step (h : Accounted creator thread s) (i : ThreadInput O) :
    Accounted creator thread ((threads creator thread).step s i).1 := by
  refine ⟨h.handOff.step i, ?_⟩
  cases i with
  | creator o created => exact h.justified.creator_step h.handOff o created
  | entry o => exact h.justified.entry_step o

omit [DecidableEq O] in
/-- The object that is behind `gStartupMutex` is the only one that can hold `gMutex`. -/
theorem map_free (h : Accounted creator thread s) (ho : s.making o = .created) :
    s.gMutex = none := by
  by_contra hheld
  obtain ⟨d, hd⟩ := h.justified.map hheld
  have hunder : (s.making d).underWay = true := by
    cases hst : s.making d with
    | mapLocked => rfl
    | inserted => rfl
    | _ => exact absurd (hst ▸ hd) (by decide)
  have hone := h.handOff.startup.one (.making o) (.making d)
    (show (s.making o).underWay = true by rw [ho]; rfl) hunder
  obtain rfl := Claimant.making.inj hone
  exact absurd (ho ▸ hd) (by decide)

theorem creator_advances (h : Accounted creator thread s)
    (ho : s.gStartupMutex = none ∨ (s.making o).underWay = true)
    (hleft : (s.making o).stepsLeft ≠ 0) :
    let t := ((threads creator thread).step s (.creator o true)).1
    (t.gStartupMutex = none ∨ (t.making o).underWay = true) ∧
      (t.making o).stepsLeft < (s.making o).stepsLeft := by
  simp only [threads, Threads.step]
  cases hst : s.making o with
  | notMade =>
      have hfree : s.gStartupMutex = none := ho.resolve_right (by rw [hst]; decide)
      simp [hfree, Threads.make, Making.underWay, Making.stepsLeft]
  | created =>
      simp [h.map_free hst, Threads.make, Making.underWay, Making.stepsLeft]
  | started => exact absurd (by rw [hst]; rfl) hleft
  | _ => simp [Threads.make, Making.underWay, Making.stepsLeft]

end Accounted

theorem entry_advances (ho : s.entry o ≠ .absent)
    (hfree : s.gStartupMutex = none ∨ (s.entry o).through = true)
    (hleft : (s.entry o).stepsLeft ≠ 0) :
    let t := ((threads creator thread).step s (.entry o)).1
    (t.entry o).through = true ∧ (t.entry o).stepsLeft < (s.entry o).stepsLeft := by
  simp only [threads, Threads.step]
  cases hst : s.entry o with
  | absent => exact absurd hst ho
  | created =>
      have hnone : s.gStartupMutex = none := hfree.resolve_right (by rw [hst]; decide)
      simp [hnone, Threads.enter, Entry.through, Entry.stepsLeft]
  | running => exact absurd (by rw [hst]; rfl) hleft
  | _ => simp [Threads.enter, Entry.through, Entry.stepsLeft]

/-- What a step does to a thread. -/
inductive Moves (s : Threads O T) (d : O) : Entry → Prop
  | created : Moves s d .created
  | locked : s.entry d = .created → s.gStartupMutex = none → Moves s d .locked
  | unlocked : s.entry d = .locked → Moves s d .unlocked
  | running : s.entry d = .unlocked → Moves s d .running

theorem entry_moves (i : ThreadInput O) :
    ((threads creator thread).step s i).1.entry = s.entry ∨
      ∃ d st, Moves s d st ∧
        ((threads creator thread).step s i).1.entry = Function.update s.entry d st := by
  cases i with
  | creator d created =>
      simp only [threads, Threads.step]
      cases s.making d with
      | notMade => cases s.gStartupMutex <;> exact Or.inl rfl
      | startupLocked =>
          cases created with
          | true => exact Or.inr ⟨d, _, Moves.created, rfl⟩
          | false => exact Or.inl rfl
      | created => cases s.gMutex <;> exact Or.inl rfl
      | _ => exact Or.inl rfl
  | entry d =>
      simp only [threads, Threads.step]
      cases hd : s.entry d with
      | created =>
          cases hfree : s.gStartupMutex with
          | some t => exact Or.inl rfl
          | none => exact Or.inr ⟨d, _, Moves.locked hd hfree, rfl⟩
      | locked => exact Or.inr ⟨d, _, Moves.unlocked hd, rfl⟩
      | unlocked => exact Or.inr ⟨d, _, Moves.running hd, rfl⟩
      | _ => exact Or.inl rfl

theorem present_step (i : ThreadInput O) (h : s.entry o ≠ .absent) :
    ((threads creator thread).step s i).1.entry o ≠ .absent := by
  rcases entry_moves i with hsame | ⟨d, st, hmoves, hnew⟩
  · rw [hsame]
    exact h
  · rw [hnew]
    by_cases hd : o = d
    · subst hd
      rw [Function.update_self]
      cases hmoves <;> decide
    · rwa [Function.update_of_ne hd]

theorem through_step (hheld : s.gStartupMutex ≠ none) (i : ThreadInput O)
    (h : (((threads creator thread).step s i).1.entry o).through = true) :
    (s.entry o).through = true := by
  rcases entry_moves i with hsame | ⟨d, st, hmoves, hnew⟩
  · rwa [hsame] at h
  · rw [hnew] at h
    by_cases hd : o = d
    · subst hd
      rw [Function.update_self] at h
      cases hmoves with
      | created => exact absurd h (by decide)
      | locked _ hfree => exact absurd hfree hheld
      | unlocked hlocked => rw [hlocked]; rfl
      | running hunlocked => rw [hunlocked]; rfl
    · rwa [Function.update_of_ne hd] at h

theorem making_creator {d : O} (hd : d ≠ o) (created : Bool) :
    ((threads creator thread).step s (.creator o created)).1.making d = s.making d := by
  have hmake (s : Threads O T) (st : Making) : (s.make o st).making d = s.making d :=
    Function.update_of_ne hd _ _
  simp only [threads, Threads.step]
  cases s.making o with
  | notMade => cases s.gStartupMutex <;> simp [hmake]
  | startupLocked => cases created <;> exact hmake _ _
  | created => cases s.gMutex <;> simp [hmake]
  | started => rfl
  | _ => exact hmake _ _

theorem making_entry : ((threads creator thread).step s (.entry o)).1.making = s.making := by
  simp only [threads, Threads.step]
  cases s.entry o with
  | created => cases s.gStartupMutex <;> rfl
  | _ => rfl

/-! ## Creators -/

/-- The hand-off with what each creator is at: the object that it makes, from the call of
the constructor, in which it may wait, to `start`. No creator is the thread of an object. -/
structure Creators (O C : Type) where
  threads : Threads O (C ⊕ O)
  busy : C → Option O

inductive CreatorInput (O : Type)
  /-- The creator calls the constructor. -/
  | calls (o : O)
  | goesOn (i : ThreadInput O)
deriving DecidableEq

variable {C : Type} [DecidableEq C] {maker : O → C}

/-- The mutexes as the creators and the threads of the objects use them. -/
def handOff (maker : O → C) : Machine (Threads O (C ⊕ O)) (ThreadInput O) (ThreadEvent O (C ⊕ O)) :=
  threads (fun o => .inl (maker o)) .inr

namespace Creators

omit [DecidableEq O] [DecidableEq C] in
def idle : Creators O C := ⟨Threads.idle, fun _ => none⟩

/-- A creator calls no constructor before it has started its last object, and then makes
only steps of the object that it is at. -/
def step (maker : O → C) (s : Creators O C) :
    CreatorInput O → Creators O C × List (ThreadEvent O (C ⊕ O))
  | .calls o =>
      if s.busy (maker o) = none ∧ s.threads.making o = .notMade then
        ({ s with busy := Function.update s.busy (maker o) (some o) }, [])
      else (s, [])
  | .goesOn (.creator o created) =>
      if s.busy (maker o) = some o then
        let (t, events) := (handOff maker).step s.threads (.creator o created)
        let busy :=
          if t.making o = .started then Function.update s.busy (maker o) none else s.busy
        (⟨t, busy⟩, events)
      else (s, [])
  | .goesOn (.entry o) =>
      let (t, events) := (handOff maker).step s.threads (.entry o)
      ({ s with threads := t }, events)

end Creators

def creators (maker : O → C) :
    Machine (Creators O C) (CreatorInput O) (ThreadEvent O (C ⊕ O)) := ⟨Creators.step maker⟩

/-- Creators are at their own unfinished objects, and at each object that is under way. -/
structure Orderly (maker : O → C) (s : Creators O C) : Prop where
  accounted : Accounted (fun o => .inl (maker o)) .inr s.threads
  own : ∀ c o, s.busy c = some o → maker o = c ∧ s.threads.making o ≠ .started
  busy : ∀ o, (s.threads.making o).underWay = true → s.busy (maker o) = some o

namespace Orderly

variable {s : Creators O C}

omit [DecidableEq O] [DecidableEq C] in
theorem idle : Orderly maker (Creators.idle : Creators O C) where
  accounted := ⟨HandOff.idle, Justified.idle⟩
  own _ _ h := by cases h
  busy _ h := by cases h

theorem calls (h : Orderly maker s) (o : O) :
    Orderly maker ((creators maker).step s (.calls o)).1 := by
  simp only [creators, Creators.step]
  split
  · next hcalls =>
      obtain ⟨hfree, hnew⟩ := hcalls
      refine ⟨h.accounted, fun c d hd => ?_, fun d hd => ?_⟩
      · dsimp only at hd ⊢
        by_cases hc : c = maker o
        · subst hc
          rw [Function.update_self] at hd
          obtain rfl := Option.some.inj hd
          exact ⟨rfl, by rw [hnew]; decide⟩
        · rw [Function.update_of_ne hc] at hd
          exact h.own c d hd
      · have hbusy := h.busy d hd
        have hc : maker d ≠ maker o := by
          intro heq
          rw [heq, hfree] at hbusy
          cases hbusy
        dsimp only
        rwa [Function.update_of_ne hc]
  · exact h

theorem makes (h : Orderly maker s) (o : O) (created : Bool) :
    Orderly maker ((creators maker).step s (.goesOn (.creator o created))).1 := by
  simp only [creators, Creators.step]
  split
  · next hat =>
      let t := ((handOff maker).step s.threads (.creator o created)).1
      have hother {d : O} (hd : d ≠ o) : t.making d = s.threads.making d :=
        making_creator hd created
      refine ⟨h.accounted.step (.creator o created), fun c d hd => ?_, fun d hd => ?_⟩
      · change (if t.making o = .started then Function.update s.busy (maker o) none
          else s.busy) c = some d at hd
        show maker d = c ∧ t.making d ≠ .started
        split at hd
        · have hc : c ≠ maker o := by
            rintro rfl
            rw [Function.update_self] at hd
            cases hd
          rw [Function.update_of_ne hc] at hd
          obtain ⟨hmaker, hst⟩ := h.own c d hd
          have hne : d ≠ o := by
            rintro rfl
            exact hc hmaker.symm
          exact ⟨hmaker, by rwa [hother hne]⟩
        · next hst =>
            obtain ⟨hmaker, hold⟩ := h.own c d hd
            refine ⟨hmaker, ?_⟩
            by_cases hdo : d = o
            · rwa [hdo]
            · rwa [hother hdo]
      · change (t.making d).underWay = true at hd
        show (if t.making o = .started then Function.update s.busy (maker o) none
          else s.busy) (maker d) = some d
        by_cases hdo : d = o
        · subst hdo
          have hst : t.making d ≠ .started := by
            intro heq
            rw [heq] at hd
            cases hd
          rwa [if_neg hst]
        · rw [hother hdo] at hd
          have hbusy := h.busy d hd
          have hc : maker d ≠ maker o := by
            intro heq
            rw [heq, hat] at hbusy
            exact hdo (Option.some.inj hbusy).symm
          split
          · rwa [Function.update_of_ne hc]
          · exact hbusy
  · exact h

theorem enters (h : Orderly maker s) (o : O) :
    Orderly maker ((creators maker).step s (.goesOn (.entry o))).1 := by
  have hmaking : ((handOff maker).step s.threads (.entry o)).1.making = s.threads.making :=
    making_entry
  refine ⟨h.accounted.step (.entry o), fun c d hd => ?_, fun d hd => ?_⟩
  · show maker d = c ∧ ((handOff maker).step s.threads (.entry o)).1.making d ≠ .started
    rw [hmaking]
    exact h.own c d hd
  · change (((handOff maker).step s.threads (.entry o)).1.making d).underWay = true at hd
    rw [hmaking] at hd
    exact h.busy d hd

theorem step (h : Orderly maker s) (i : CreatorInput O) :
    Orderly maker ((creators maker).step s i).1 := by
  cases i with
  | calls o => exact h.calls o
  | goesOn i =>
      cases i with
      | creator o created => exact h.makes o created
      | entry o => exact h.enters o

theorem reach {log : List (ThreadEvent O (C ⊕ O))}
    (h : (creators maker).Reach (fun _ _ _ => True) Creators.idle s log) : Orderly maker s :=
  h.invariant (P := fun s _ => Orderly maker s) idle fun _ _ i hs _ => hs.step i

end Orderly

/-! ## From any state -/

section Progress

variable {s : Creators O C}

/-- The creator is at this object as long as it is not started, and then at none. -/
def At (maker : O → C) (s : Creators O C) (o : O) : Prop :=
  s.busy (maker o) = if s.threads.making o = .started then none else some o

/-- The object of a creator that does not wait, and that creator. -/
structure Advancing (maker : O → C) (o : O) (s : Creators O C) : Prop where
  orderly : Orderly maker s
  at_it : At maker s o
  admitted : s.threads.gStartupMutex = none ∨ (s.threads.making o).underWay = true

theorem Advancing.advances (h : Advancing maker o s) (hleft : (s.threads.making o).stepsLeft ≠ 0) :
    let t := ((creators maker).step s (.goesOn (.creator o true))).1
    Advancing maker o t ∧ (t.threads.making o).stepsLeft < (s.threads.making o).stepsLeft := by
  obtain ⟨hadmitted, hlt⟩ := h.orderly.accounted.creator_advances h.admitted hleft
  have hst : s.threads.making o ≠ .started := by
    intro heq
    rw [heq] at hleft
    exact hleft rfl
  have hbusy : s.busy (maker o) = some o := h.at_it.trans (if_neg hst)
  have hstep : ((creators maker).step s (.goesOn (.creator o true))).1 =
      let t := ((handOff maker).step s.threads (.creator o true)).1
      ⟨t, if t.making o = .started then Function.update s.busy (maker o) none else s.busy⟩ :=
    congrArg Prod.fst (if_pos hbusy)
  refine ⟨⟨h.orderly.step _, ?_, ?_⟩, ?_⟩
  · rw [hstep, At]
    dsimp only
    split
    · rw [Function.update_self]
    · exact hbusy
  · rw [hstep]
    exact hadmitted
  · rw [hstep]
    exact hlt

/-- A creator that does not wait finishes the object that it is at. -/
theorem Orderly.finishes (h : Orderly maker s) (hat : s.busy (maker o) = some o)
    (ho : s.threads.gStartupMutex = none ∨ (s.threads.making o).underWay = true) :
    (creators maker).Leads s fun t => Orderly maker t ∧ t.threads.gStartupMutex = none ∧
      t.threads.making o = .started ∧ t.busy (maker o) = none := by
  have hstart : Advancing maker o s := ⟨h, hat.trans (if_neg (h.own _ _ hat).2).symm, ho⟩
  have hdown := Machine.Leads.countdown (m := creators maker) (P := Advancing maker o)
    (fun t ht hleft => ⟨.goesOn (.creator o true), ht.advances hleft⟩) hstart
  apply hdown.mono
  rintro t ⟨ht, hzero⟩
  have hstarted := Making.eq_started hzero
  refine ⟨ht.orderly, ht.admitted.resolve_right ?_, hstarted, ht.at_it.trans (if_pos hstarted)⟩
  rw [hstarted]
  decide

/-- Whoever holds `gStartupMutex` can give it up. -/
theorem Orderly.releases (h : Orderly maker s) :
    (creators maker).Leads s fun t => Orderly maker t ∧ t.threads.gStartupMutex = none := by
  by_cases hfree : s.threads.gStartupMutex = none
  · exact Machine.Leads.here ⟨h, hfree⟩
  obtain ⟨c, hc⟩ := h.accounted.justified.startup hfree
  cases c with
  | making o => exact (h.finishes (h.busy o hc) (Or.inr hc)).mono fun t ht => ⟨ht.1, ht.2.1⟩
  | entering o =>
      have hlocked : s.threads.entry o = .locked := hc
      refine Machine.Leads.next (.goesOn (.entry o)) (Machine.Leads.here ⟨h.step _, ?_⟩)
      simp [creators, Creators.step, handOff, threads, Threads.step, hlocked]

/-- A creator that is at no object makes and starts any of its own. -/
theorem Orderly.starts_next (h : Orderly maker s) (hfree : s.threads.gStartupMutex = none)
    (hidle : s.busy (maker o) = none) :
    (creators maker).Leads s fun t => t.threads.making o = .started := by
  by_cases hst : s.threads.making o = .started
  · exact Machine.Leads.here hst
  have hnew : s.threads.making o = .notMade := by
    cases hmaking : s.threads.making o with
    | notMade => rfl
    | started => exact absurd hmaking hst
    | _ =>
        have hbusy := h.busy o (by rw [hmaking]; rfl)
        rw [hidle] at hbusy
        cases hbusy
  have hcalls : (creators maker).step s (.calls o) =
      ({ s with busy := Function.update s.busy (maker o) (some o) }, []) := if_pos ⟨hidle, hnew⟩
  have hnext := h.step (.calls o)
  refine Machine.Leads.next (.calls o) ?_
  rw [hcalls] at hnext ⊢
  exact (hnext.finishes (Function.update_self _ _ _) (Or.inl hfree)).mono fun _ ht => ht.2.2.1

theorem Orderly.starts (h : Orderly maker s) (o : O) :
    (creators maker).Leads s fun t => t.threads.making o = .started := by
  refine h.releases.trans fun t ht => ?_
  obtain ⟨ht, hfree⟩ := ht
  cases hbusy : t.busy (maker o) with
  | none => exact ht.starts_next hfree hbusy
  | some d =>
      -- first the object that its creator is at, which can be `o` itself
      have hmaker := (ht.own _ _ hbusy).1
      rw [← hmaker] at hbusy
      refine (ht.finishes hbusy (Or.inl hfree)).trans fun u hu => ?_
      obtain ⟨hu, hfree', -, hidle⟩ := hu
      rw [hmaker] at hidle
      exact hu.starts_next hfree' hidle

theorem present_creators (i : CreatorInput O) (h : s.threads.entry o ≠ .absent) :
    ((creators maker).step s i).1.threads.entry o ≠ .absent := by
  cases i with
  | calls d =>
      simp only [creators, Creators.step]
      split <;> exact h
  | goesOn i =>
      cases i with
      | creator d created =>
          simp only [creators, Creators.step]
          split
          · exact present_step (.creator d created) h
          · exact h
      | entry d =>
          show ((handOff maker).step s.threads (.entry d)).1.entry o ≠ .absent
          exact present_step (.entry d) h

theorem Orderly.enters_run (h : Orderly maker s) (ho : s.threads.entry o ≠ .absent) :
    (creators maker).Leads s fun t => t.threads.entry o = .running := by
  refine (h.releases.keep (Q := fun t => t.threads.entry o ≠ .absent)
    (fun t i ht => present_creators i ht) ho).trans ?_
  rintro t ⟨⟨-, hfree⟩, hthere⟩
  have hdown := Machine.Leads.countdown (m := creators maker)
    (P := fun t => t.threads.entry o ≠ .absent ∧
      (t.threads.gStartupMutex = none ∨ (t.threads.entry o).through = true))
    (fun t ht hleft => by
      have hadvances : (((handOff maker).step t.threads (.entry o)).1.entry o).through = true ∧
          (((handOff maker).step t.threads (.entry o)).1.entry o).stepsLeft <
            (t.threads.entry o).stepsLeft :=
        entry_advances ht.1 ht.2 hleft
      exact ⟨.goesOn (.entry o), ⟨present_creators _ ht.1, Or.inr hadvances.1⟩, hadvances.2⟩)
    ⟨hthere, Or.inl hfree⟩
  exact hdown.mono fun t ht => Entry.eq_running ht.2

/-- From every reachable state, whatever is under way and whoever waits: any object can
still be made and started, and any thread that exists can still reach its `run`. -/
theorem threads_progress {log : List (ThreadEvent O (C ⊕ O))}
    (h : (creators maker).Reach (fun _ _ _ => True) Creators.idle s log) (o : O) :
    ((creators maker).Leads s fun t => t.threads.making o = .started) ∧
    (s.threads.entry o ≠ .absent →
      (creators maker).Leads s fun t => t.threads.entry o = .running) :=
  ⟨(Orderly.reach h).starts o, (Orderly.reach h).enters_run⟩

end Progress

/-- The first creator has returned from the constructor of 0 and has yet to call `start`;
the second one waits in the constructor of 2. -/
def waitingInputs : List (CreatorInput Nat) :=
  .calls 0 :: List.replicate 6 (.goesOn (.creator 0 true)) ++ [.calls 2, .goesOn (.creator 2 true)]

/-- The first creator can still start its other object, and the thread of 0 run. -/
theorem threads_progress_both :
    let m := creators (fun o : Nat => o == 2)
    let s := (m.run Creators.idle waitingInputs).1
    (m.Leads s fun t => t.threads.making 1 = .started) ∧
      m.Leads s fun t => t.threads.entry 0 = .running := by
  intro m s
  have hreach : m.Reach (fun _ _ _ => True) Creators.idle s
      ([] ++ (m.run Creators.idle waitingInputs).2) :=
    Machine.Reach.start.run (by decide)
  exact ⟨(threads_progress hreach 1).1, (threads_progress hreach 0).2 (by decide)⟩

/-! ## A start that does not come -/

/-- The object `o` is unfinished, and since `s` nothing else was made or got in. -/
structure Stopped (creator thread : O → T) (s : Threads O T) (o : O) (t : Threads O T) :
    Prop where
  handOff : HandOff creator thread t
  making : t.making = s.making
  through : ∀ d, (t.entry d).through = true → (s.entry d).through = true

theorem Stopped.step {t : Threads O T} (h : Stopped creator thread s o t)
    (ho : (s.making o).underWay = true) (i : ThreadInput O)
    (hi : ∀ created, i ≠ .creator o created) :
    Stopped creator thread s o ((threads creator thread).step t i).1 := by
  have hunder : (t.making o).underWay = true := by
    rw [h.making]
    exact ho
  have hheld : t.gStartupMutex = some (creator o) := h.handOff.startup.held (.making o) hunder
  refine ⟨h.handOff.step i, ?_, fun d hd => ?_⟩
  · rw [← h.making]
    cases i with
    | creator d created =>
        have hidle : ¬ (t.making d).underWay = true := by
          intro hd
          obtain rfl := Claimant.making.inj (h.handOff.startup.one (.making d) (.making o) hd hunder)
          exact hi created rfl
        simp only [threads, Threads.step]
        cases hst : t.making d with
        | notMade => simp [hheld]
        | started => rfl
        | _ => exact absurd (by rw [hst]; rfl) hidle
    | entry d =>
        simp only [threads, Threads.step]
        cases t.entry d with
        | created => simp [hheld]
        | _ => rfl
  · exact h.through d (through_step (by rw [hheld]; exact Option.some_ne_none _) i hd)

/-- While the creator of an unfinished object stays away, nobody makes or starts an
object and no thread gets behind the mutex, whatever all the others do. -/
theorem unstarted_stops {log : List (ThreadEvent O T)} {is : List (ThreadInput O)}
    (h : (threads creator thread).Reach (fun _ _ _ => True) Threads.idle s log)
    (ho : (s.making o).underWay = true) (haway : ∀ i ∈ is, ∀ created, i ≠ .creator o created) :
    let t := ((threads creator thread).run s is).1
    t.making = s.making ∧ t.gStartupMutex = some (creator o) ∧
      ∀ d, (t.entry d).through = true → (s.entry d).through = true := by
  have hs : Stopped creator thread s o s := ⟨(reach_handOff h).1, rfl, fun _ => id⟩
  have hrun := Machine.run_keeps (P := Stopped creator thread s o)
    (m := threads creator thread) (fun t i ht hi => Stopped.step ht ho i hi) haway hs
  refine ⟨hrun.making, hrun.handOff.startup.held (.making o) ?_, hrun.through⟩
  show (((threads creator thread).run s is).1.making o).underWay = true
  rw [hrun.making]
  exact ho

/-- The creator of `true` has returned from the constructor and has yet to call `start`. -/
def unstartedInputs : List (ThreadInput Bool) := List.replicate 6 (.creator true true)

/-- Its own thread and the constructor of `false` wait. -/
theorem unstarted_stops_both :
    let m := threads (fun _ => 0) Bool.toNat
    let s := (m.run Threads.idle unstartedInputs).1
    let t := (m.run s [.entry true, .creator false true, .entry true]).1
    t.making false = .notMade ∧ t.entry true = .created := by
  intro m s t
  have hreach : m.Reach (fun _ _ _ => True) Threads.idle s
      ([] ++ (m.run Threads.idle unstartedInputs).2) :=
    Machine.Reach.start.run (by decide)
  have hmaking : t.making = s.making :=
    (unstarted_stops (o := true) hreach (by decide) (by decide)).1
  refine ⟨?_, by decide⟩
  rw [hmaking]
  decide

end Steps

end VRAdmin
