import Mathlib.Logic.Function.Basic
import VRAdmin.Foundation.Machine
import VRAdmin.Foundation.Mutex

/-! # The map of threads

`gThreads` finds the object of a thread. The constructor inserts it, which does nothing
under an id that is taken, and the destructor erases what it finds under its own id,
both inside `gMutex`. The threads are detached, so an id may be given again once its
thread has ended, while the object is still there; where `pthread_create` fails `mID` is
whatever was in memory. Constructors and destructors of all objects interleave.
-/

namespace VRAdmin

open Foundation

/-- Where the constructor or the destructor of an object is, with its `mID`. -/
inductive Listing (I : Type)
  | notMade
  /-- `pthread_create` has returned. -/
  | created (mID : I)
  /-- The constructor has locked `gMutex`. -/
  | inserting (mID : I)
  | inserted (mID : I)
  | alive (mID : I)
  | dying (mID : I)
  /-- The destructor has locked `gMutex`. -/
  | erasing (mID : I)
  | erased (mID : I)
  | gone
deriving DecidableEq

/-- The holder of `gMutex` is known by the object that it works for. -/
structure ThreadMap (I O : Type) where
  gMutex : Option O
  gThreads : I → Option O
  listing : O → Listing I

inductive MapInput (I O : Type)
  | create (o : O) (mID : I)
  | destroy (o : O)
  /-- The next step of the constructor or the destructor. -/
  | next (o : O)
deriving DecidableEq

inductive MapEvent (I O : Type)
  | inserted (o : O) (mID : I)
  | erased (o : O) (mID : I)
deriving DecidableEq

section Model

variable {I O : Type} [DecidableEq I] [DecidableEq O]

namespace ThreadMap

def empty : ThreadMap I O := ⟨none, fun _ => none, fun _ => .notMade⟩

def move (s : ThreadMap I O) (o : O) (st : Listing I) : ThreadMap I O :=
  { s with listing := Function.update s.listing o st }

def lock (s : ThreadMap I O) (o : O) (st : Listing I) : ThreadMap I O :=
  if s.gMutex.isNone then { s.move o st with gMutex := some o } else s

/-- `std::map::insert`. -/
def insert (s : ThreadMap I O) (o : O) (mID : I) : I → Option O :=
  if (s.gThreads mID).isNone then Function.update s.gThreads mID (some o) else s.gThreads

/-- `find` and `erase`. -/
def erase (s : ThreadMap I O) (mID : I) : I → Option O := Function.update s.gThreads mID none

def step (s : ThreadMap I O) : MapInput I O → ThreadMap I O × List (MapEvent I O)
  | .create o mID =>
      match s.listing o with
      | .notMade => (s.move o (.created mID), [])
      | _ => (s, [])
  | .destroy o =>
      match s.listing o with
      | .alive mID => (s.move o (.dying mID), [])
      | _ => (s, [])
  | .next o =>
      match s.listing o with
      | .created mID => (s.lock o (.inserting mID), [])
      | .inserting mID =>
          ({ s.move o (.inserted mID) with gThreads := s.insert o mID }, [.inserted o mID])
      | .inserted mID => ({ s.move o (.alive mID) with gMutex := none }, [])
      | .dying mID => (s.lock o (.erasing mID), [])
      | .erasing mID =>
          ({ s.move o (.erased mID) with gThreads := s.erase mID }, [.erased o mID])
      | .erased _ => ({ s.move o .gone with gMutex := none }, [])
      | _ => (s, [])

end ThreadMap

def threadMap : Machine (ThreadMap I O) (MapInput I O) (MapEvent I O) := ⟨ThreadMap.step⟩

/-! ## What an entry means -/

namespace Listing

omit [DecidableEq I]

def mID : Listing I → Option I
  | .notMade => none
  | .created mID => some mID
  | .inserting mID => some mID
  | .inserted mID => some mID
  | .alive mID => some mID
  | .dying mID => some mID
  | .erasing mID => some mID
  | .erased mID => some mID
  | .gone => none

/-- Behind the insertion and before the erasure. -/
def entered : Listing I → Option I
  | .inserted mID => some mID
  | .alive mID => some mID
  | .dying mID => some mID
  | .erasing mID => some mID
  | _ => none

def locked : Listing I → Bool
  | .inserting _ => true
  | .inserted _ => true
  | .erasing _ => true
  | .erased _ => true
  | _ => false

theorem mID_of_entered {st : Listing I} {id : I} (h : st.entered = some id) : st.mID = some id := by
  cases st with
  | inserted mID => exact h
  | alive mID => exact h
  | dying mID => exact h
  | erasing mID => exact h
  | _ => exact absurd h (by simp [entered])

end Listing

/-- `pthread_create` gives an id that no object has. -/
def Distinct (s : ThreadMap I O) (_log : List (MapEvent I O)) : MapInput I O → Prop
  | .create _ mID => ∀ d, (s.listing d).mID ≠ some mID
  | _ => True

/-- The objects inserted under an id since something was last erased under it. -/
def insertedSince (id : I) (log : List (MapEvent I O)) : List O :=
  log.foldl (fun objects e =>
    match e with
    | .inserted o mID => if mID = id then objects ++ [o] else objects
    | .erased _ mID => if mID = id then [] else objects) []

omit [DecidableEq O] in
theorem insertedSince_inserted (id : I) (log : List (MapEvent I O)) (o : O) (mID : I) :
    insertedSince id (log ++ [.inserted o mID]) =
      if mID = id then insertedSince id log ++ [o] else insertedSince id log := by
  rw [insertedSince, List.foldl_append]
  rfl

omit [DecidableEq O] in
theorem insertedSince_erased (id : I) (log : List (MapEvent I O)) (o : O) (mID : I) :
    insertedSince id (log ++ [.erased o mID]) = if mID = id then [] else insertedSince id log := by
  rw [insertedSince, List.foldl_append]
  rfl

/-- What a step does with the listing of one object and with the map. -/
inductive Relists (s : ThreadMap I O) : MapInput I O → O → Listing I → (I → Option O) →
    List (MapEvent I O) → Prop
  | quiet {i : MapInput I O} {o : O} {st : Listing I} : st.entered = (s.listing o).entered →
      st.mID = (s.listing o).mID → Relists s i o st s.gThreads []
  | creates (o : O) (mID : I) : s.listing o = .notMade →
      Relists s (.create o mID) o (.created mID) s.gThreads []
  | inserts (o : O) (mID : I) : s.listing o = .inserting mID →
      Relists s (.next o) o (.inserted mID) (s.insert o mID) [.inserted o mID]
  | erases (o : O) (mID : I) : s.listing o = .erasing mID →
      Relists s (.next o) o (.erased mID) (s.erase mID) [.erased o mID]
  | leaves (o : O) (mID : I) : s.listing o = .erased mID →
      Relists s (.next o) o .gone s.gThreads []

theorem step_relists (s : ThreadMap I O) (i : MapInput I O) :
    ∃ o st, (threadMap.step s i).1.listing = Function.update s.listing o st ∧
      Relists s i o st (threadMap.step s i).1.gThreads (threadMap.step s i).2 := by
  have hstays (o : O) : s.listing = Function.update s.listing o (s.listing o) :=
    (Function.update_eq_self o s.listing).symm
  have hlock {o : O} {st : Listing I} (hentered : st.entered = (s.listing o).entered)
      (hmID : st.mID = (s.listing o).mID) :
      ∃ st', (s.lock o st).listing = Function.update s.listing o st' ∧
        Relists s i o st' (s.lock o st).gThreads [] := by
    unfold ThreadMap.lock
    split
    · exact ⟨st, rfl, .quiet hentered hmID⟩
    · exact ⟨s.listing o, hstays o, .quiet rfl rfl⟩
  cases i with
  | create o mID =>
      refine ⟨o, ?_⟩
      cases ho : s.listing o with
      | notMade =>
          simp only [threadMap, ThreadMap.step, ho]
          exact ⟨_, rfl, .creates o mID ho⟩
      | _ =>
          simp only [threadMap, ThreadMap.step, ho]
          exact ⟨s.listing o, hstays o, .quiet rfl rfl⟩
  | destroy o =>
      refine ⟨o, ?_⟩
      cases ho : s.listing o with
      | alive mID =>
          simp only [threadMap, ThreadMap.step, ho]
          exact ⟨_, rfl, .quiet (by rw [ho]; rfl) (by rw [ho]; rfl)⟩
      | _ =>
          simp only [threadMap, ThreadMap.step, ho]
          exact ⟨s.listing o, hstays o, .quiet rfl rfl⟩
  | next o =>
      refine ⟨o, ?_⟩
      cases ho : s.listing o with
      | created mID =>
          simp only [threadMap, ThreadMap.step, ho]
          exact hlock (by rw [ho]; rfl) (by rw [ho]; rfl)
      | inserting mID =>
          simp only [threadMap, ThreadMap.step, ho]
          exact ⟨_, rfl, .inserts o mID ho⟩
      | inserted mID =>
          simp only [threadMap, ThreadMap.step, ho]
          exact ⟨_, rfl, .quiet (by rw [ho]; rfl) (by rw [ho]; rfl)⟩
      | dying mID =>
          simp only [threadMap, ThreadMap.step, ho]
          exact hlock (by rw [ho]; rfl) (by rw [ho]; rfl)
      | erasing mID =>
          simp only [threadMap, ThreadMap.step, ho]
          exact ⟨_, rfl, .erases o mID ho⟩
      | erased mID =>
          simp only [threadMap, ThreadMap.step, ho]
          exact ⟨_, rfl, .leaves o mID ho⟩
      | _ =>
          simp only [threadMap, ThreadMap.step, ho]
          exact ⟨s.listing o, hstays o, .quiet rfl rfl⟩

/-- An entry is the first object inserted under its id, and was not erased. -/
structure Mapped (s : ThreadMap I O) (log : List (MapEvent I O)) : Prop where
  pointed : ∀ id o, s.gThreads id = some o → (s.listing o).entered = some id
  first : ∀ id, s.gThreads id = (insertedSince id log).head?

namespace Mapped

variable {s t : ThreadMap I O} {log events : List (MapEvent I O)} {i : MapInput I O} {o : O}
  {st : Listing I}

omit [DecidableEq O] in
theorem empty : Mapped (ThreadMap.empty : ThreadMap I O) [] :=
  ⟨fun _ _ h => absurd h (by simp [ThreadMap.empty]), fun _ => rfl⟩

theorem relists (h : Mapped s log) (hlisting : t.listing = Function.update s.listing o st)
    (hs : Relists s i o st t.gThreads events) : Mapped t (log ++ events) := by
  have hkept {id : I} {d : O} (hd : s.gThreads id = some d)
      (ho : d = o → st.entered = (s.listing o).entered) : (t.listing d).entered = some id := by
    rw [hlisting]
    by_cases hdo : d = o
    · rw [hdo, Function.update_self, ho hdo, ← hdo]
      exact h.pointed id d hd
    · rw [Function.update_of_ne hdo]
      exact h.pointed id d hd
  generalize hmap : t.gThreads = gThreads at hs
  refine ⟨fun id d hd => ?_, fun id => ?_⟩
  · rw [hmap] at hd
    cases hs with
    | quiet hentered _ => exact hkept hd fun _ => hentered
    | creates o mID ho => exact hkept hd fun _ => by rw [ho]; rfl
    | leaves o mID ho => exact hkept hd fun _ => by rw [ho]; rfl
    | inserts o mID ho =>
        have hnot (hold : s.gThreads id = some d) : d ≠ o := by
          rintro rfl
          have hentered := h.pointed id d hold
          rw [ho] at hentered
          exact absurd hentered (by simp [Listing.entered])
        unfold ThreadMap.insert at hd
        split at hd
        · by_cases hid : id = mID
          · subst hid
            rw [Function.update_self] at hd
            obtain rfl := Option.some.inj hd
            rw [hlisting, Function.update_self]
            rfl
          · rw [Function.update_of_ne hid] at hd
            exact hkept hd fun hdo => absurd hdo (hnot hd)
        · exact hkept hd fun hdo => absurd hdo (hnot hd)
    | erases o mID ho =>
        by_cases hid : id = mID
        · rw [hid, ThreadMap.erase, Function.update_self] at hd
          exact absurd hd (by simp)
        · rw [ThreadMap.erase, Function.update_of_ne hid] at hd
          refine hkept hd fun hdo => ?_
          have hentered := h.pointed id d hd
          rw [hdo, ho] at hentered
          exact absurd (Option.some.inj hentered).symm hid
  · rw [hmap]
    cases hs with
    | inserts o mID ho =>
        have hfirst := h.first id
        rw [insertedSince_inserted, ThreadMap.insert]
        by_cases hid : id = mID
        · subst hid
          rw [if_pos rfl, List.head?_append, ← hfirst]
          cases hold : s.gThreads id with
          | none => simp
          | some d => simp [hold]
        · rw [if_neg (Ne.symm hid), ← hfirst]
          split
          · rw [Function.update_of_ne hid]
          · rfl
    | erases o mID ho =>
        rw [insertedSince_erased, ThreadMap.erase]
        by_cases hid : id = mID
        · rw [hid, Function.update_self, if_pos rfl]
          rfl
        · rw [Function.update_of_ne hid, if_neg (Ne.symm hid)]
          exact h.first id
    | _ => exact (List.append_nil log).symm ▸ h.first id

end Mapped

/-- At most one constructor or destructor is inside `gMutex`. -/
abbrev OneInside (s : ThreadMap I O) : Prop :=
  Guards s.gMutex id fun o => (s.listing o).locked = true

omit [DecidableEq I] in
theorem locked_update {s : ThreadMap I O} {o d : O} {st : Listing I}
    (h : (Function.update s.listing o st d).locked = true) :
    d = o ∧ st.locked = true ∨ d ≠ o ∧ (s.listing d).locked = true := by
  by_cases hd : d = o
  · subst hd
    exact Or.inl ⟨rfl, by simpa using h⟩
  · exact Or.inr ⟨hd, by simpa [hd] using h⟩

namespace OneInside

variable {s : ThreadMap I O} {o : O} {st : Listing I}

omit [DecidableEq I] in
theorem moves (h : OneInside s) (hst : st.locked = true → (s.listing o).locked = true)
    (gThreads : I → Option O) :
    OneInside ⟨s.gMutex, gThreads, Function.update s.listing o st⟩ := by
  refine Guards.mono h fun d hd => ?_
  rcases locked_update hd with ⟨rfl, hlocked⟩ | ⟨-, hold⟩
  · exact hst hlocked
  · exact hold

omit [DecidableEq I] in
theorem locks (h : OneInside s) (st : Listing I) : OneInside (s.lock o st) := by
  unfold ThreadMap.lock
  cases hfree : s.gMutex with
  | some d => exact h
  | none =>
      refine Guards.lock (a := o) h hfree fun d hd => ?_
      rcases locked_update hd with ⟨hdo, -⟩ | ⟨-, hold⟩
      · exact Or.inr hdo
      · exact Or.inl hold

omit [DecidableEq I] in
theorem unlocks (h : OneInside s) (ho : (s.listing o).locked = true) (hst : st.locked = false) :
    OneInside ⟨none, s.gThreads, Function.update s.listing o st⟩ := by
  refine Guards.unlock (a := o) h ho fun d hd => ?_
  rcases locked_update hd with ⟨-, hlocked⟩ | ⟨hdo, hold⟩
  · exact absurd (hst.symm.trans hlocked) (by decide)
  · exact ⟨hold, hdo⟩

theorem step (h : OneInside s) (i : MapInput I O) : OneInside (threadMap.step s i).1 := by
  cases i with
  | create o mID =>
      cases ho : s.listing o with
      | notMade =>
          simp only [threadMap, ThreadMap.step, ho]
          exact h.moves (by simp [Listing.locked]) s.gThreads
      | _ => simpa only [threadMap, ThreadMap.step, ho] using h
  | destroy o =>
      cases ho : s.listing o with
      | alive mID =>
          simp only [threadMap, ThreadMap.step, ho]
          exact h.moves (by simp [Listing.locked]) s.gThreads
      | _ => simpa only [threadMap, ThreadMap.step, ho] using h
  | next o =>
      cases ho : s.listing o with
      | created mID => simpa only [threadMap, ThreadMap.step, ho] using h.locks (.inserting mID)
      | inserting mID =>
          simp only [threadMap, ThreadMap.step, ho]
          exact h.moves (by rw [ho]; exact id) (s.insert o mID)
      | inserted mID =>
          simp only [threadMap, ThreadMap.step, ho]
          exact h.unlocks (by rw [ho]; rfl) rfl
      | dying mID => simpa only [threadMap, ThreadMap.step, ho] using h.locks (.erasing mID)
      | erasing mID =>
          simp only [threadMap, ThreadMap.step, ho]
          exact h.moves (by rw [ho]; exact id) (s.erase mID)
      | erased mID =>
          simp only [threadMap, ThreadMap.step, ho]
          exact h.unlocks (by rw [ho]; rfl) rfl
      | _ => simpa only [threadMap, ThreadMap.step, ho] using h

end OneInside

/-! ## Ids that are not given twice -/

/-- Every object between its insertion and its erasure has its entry. -/
structure Complete (s : ThreadMap I O) : Prop where
  entry : ∀ id o, (s.listing o).entered = some id → s.gThreads id = some o
  own : ∀ id o d, (s.listing o).mID = some id → (s.listing d).mID = some id → o = d

namespace Complete

variable {s t : ThreadMap I O} {log events : List (MapEvent I O)} {i : MapInput I O} {o : O}
  {st : Listing I}

omit [DecidableEq I] [DecidableEq O] in
theorem empty : Complete (ThreadMap.empty : ThreadMap I O) :=
  ⟨fun _ _ h => absurd h (by simp [ThreadMap.empty, Listing.entered]),
    fun _ _ _ h => absurd h (by simp [ThreadMap.empty, Listing.mID])⟩

omit [DecidableEq I] [DecidableEq O] in
theorem own_kept (h : Complete s)
    (hsub : ∀ d id, (t.listing d).mID = some id → (s.listing d).mID = some id)
    {id : I} {d e : O} (hd : (t.listing d).mID = some id) (he : (t.listing e).mID = some id) :
    d = e := h.own id d e (hsub d id hd) (hsub e id he)

theorem relists (h : Complete s) (hmapped : Mapped s log) (hi : Distinct s log i)
    (hlisting : t.listing = Function.update s.listing o st)
    (hs : Relists s i o st t.gThreads events) : Complete t := by
  have hother {d : O} (hd : d ≠ o) : t.listing d = s.listing d := by
    rw [hlisting, Function.update_of_ne hd]
  have hself : t.listing o = st := by rw [hlisting, Function.update_self]
  have hsub (hst : ∀ id, st.mID = some id → (s.listing o).mID = some id) (d : O) (id : I)
      (hd : (t.listing d).mID = some id) : (s.listing d).mID = some id := by
    by_cases hdo : d = o
    · rw [hdo, hself] at hd
      rw [hdo]
      exact hst id hd
    · rwa [hother hdo] at hd
  have hsame (hst : st.entered = (s.listing o).entered) (d : O) :
      (t.listing d).entered = (s.listing d).entered := by
    by_cases hdo : d = o
    · rw [hdo, hself, hst]
    · rw [hother hdo]
  generalize hmap : t.gThreads = gThreads at hs
  refine ⟨fun id d hd => ?_, fun id d e hd he => ?_⟩
  · rw [hmap]
    cases hs with
    | quiet hentered _ => exact h.entry id d (hsame hentered d ▸ hd)
    | creates o mID ho => exact h.entry id d (hsame (by rw [ho]; rfl) d ▸ hd)
    | leaves o mID ho => exact h.entry id d (hsame (by rw [ho]; rfl) d ▸ hd)
    | inserts o mID ho =>
        have hfree : s.gThreads mID = none := by
          cases hold : s.gThreads mID with
          | none => rfl
          | some e =>
              -- the entry's object would be the one that is being inserted
              have hentered := hmapped.pointed mID e hold
              have heo := h.own mID e o (Listing.mID_of_entered hentered) (by rw [ho]; rfl)
              rw [heo, ho] at hentered
              exact absurd hentered (by simp [Listing.entered])
        rw [ThreadMap.insert, hfree]
        by_cases hdo : d = o
        · rw [hdo, hself] at hd
          obtain rfl := Option.some.inj hd
          simp [hdo]
        · rw [hother hdo] at hd
          have hid : id ≠ mID := by
            rintro rfl
            exact hdo (h.own id d o (Listing.mID_of_entered hd) (by rw [ho]; rfl))
          simpa [hid] using h.entry id d hd
    | erases o mID ho =>
        have hdo : d ≠ o := by
          rintro rfl
          rw [hself] at hd
          exact absurd hd (by simp [Listing.entered])
        rw [hother hdo] at hd
        have hid : id ≠ mID := by
          rintro rfl
          exact hdo (h.own id d o (Listing.mID_of_entered hd) (by rw [ho]; rfl))
        rw [ThreadMap.erase, Function.update_of_ne hid]
        exact h.entry id d hd
  · cases hs with
    | quiet _ hmID => exact h.own_kept (hsub fun _ hst => hmID ▸ hst) hd he
    | inserts o mID ho => exact h.own_kept (hsub fun _ hst => by rw [ho]; exact hst) hd he
    | erases o mID ho => exact h.own_kept (hsub fun _ hst => by rw [ho]; exact hst) hd he
    | leaves o mID ho =>
        exact h.own_kept (hsub fun _ hst => absurd hst (by simp [Listing.mID])) hd he
    | creates o mID ho =>
        have hnew {x : O} (hx : (t.listing x).mID = some mID) : x = o := by
          by_contra hxo
          rw [hother hxo] at hx
          exact hi x hx
        have hold {x : O} (hx : (t.listing x).mID = some id) (hid : id ≠ mID) : x ≠ o := by
          rintro rfl
          rw [hself] at hx
          exact hid (Option.some.inj hx).symm
        by_cases hid : id = mID
        · rw [hid] at hd he
          exact (hnew hd).trans (hnew he).symm
        · have hdo := hold hd hid
          have heo := hold he hid
          rw [hother hdo] at hd
          rw [hother heo] at he
          exact h.own id d e hd he

end Complete

/-- For any ids, also ids given again while an earlier object is still there: at most one
constructor or destructor is inside `gMutex`, every entry points to an object that has
been inserted under the id and not erased, namely the first that was since something
was last erased under the id. While ids are given once only, the entries are exactly
the objects between their insertion and their erasure. -/
theorem thread_map {s : ThreadMap I O} {log : List (MapEvent I O)}
    (h : threadMap.Reach (fun _ _ _ => True) ThreadMap.empty s log) :
    (∀ o d, (s.listing o).locked = true → (s.listing d).locked = true → o = d) ∧
    (∀ id o, s.gThreads id = some o → (s.listing o).entered = some id) ∧
    (∀ id, s.gThreads id = (insertedSince id log).head?) ∧
    (threadMap.Reach Distinct ThreadMap.empty s log →
      ∀ id o, s.gThreads id = some o ↔ (s.listing o).entered = some id) := by
  have hinside : OneInside s :=
    h.invariant (P := fun s _ => OneInside s)
      (Guards.free _ fun _ => by simp [ThreadMap.empty, Listing.locked])
      fun _ _ i hs _ => hs.step i
  have hmapped : Mapped s log :=
    h.invariant (P := Mapped) Mapped.empty fun s _ i hs _ => by
      obtain ⟨o, st, hlisting, hrelists⟩ := step_relists s i
      exact hs.relists hlisting hrelists
  refine ⟨hinside.one, hmapped.pointed, hmapped.first, fun hdistinct id o => ?_⟩
  have hcomplete : Mapped s log ∧ Complete s :=
    hdistinct.invariant (P := fun s log => Mapped s log ∧ Complete s)
      ⟨Mapped.empty, Complete.empty⟩ fun s _ i hs hi => by
        obtain ⟨o, st, hlisting, hrelists⟩ := step_relists s i
        exact ⟨hs.1.relists hlisting hrelists, hs.2.relists hs.1 hi hlisting hrelists⟩
  exact ⟨hmapped.pointed id o, hcomplete.2.entry id o⟩

end Model

/-- Two objects under one id, of which the first is destroyed. -/
def reusedId : List (MapInput Nat Bool) :=
  .create true 7 :: List.replicate 3 (.next true) ++ .create false 7 ::
    List.replicate 3 (.next false) ++ .destroy true :: List.replicate 3 (.next true)

/-- The other object is alive and has no entry, and nothing points to the destroyed one. -/
theorem thread_map_reused :
    let r := threadMap.run ThreadMap.empty reusedId
    r.1.listing false = .alive 7 ∧ r.1.gThreads 7 = none ∧ insertedSince 7 r.2 = [] := by
  intro r
  have hreach : threadMap.Reach (fun _ _ _ => True) ThreadMap.empty r.1 ([] ++ r.2) :=
    Machine.Reach.start.run (by decide)
  have hsince : insertedSince 7 r.2 = [] := by decide
  refine ⟨by decide, ?_, hsince⟩
  rw [(thread_map hreach).2.2.1 7, List.nil_append, hsince]
  rfl

end VRAdmin
