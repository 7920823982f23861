import Mathlib.Data.List.Induction
import Mathlib.Data.List.Nodup
import Mathlib.Data.List.Count

/-! # Lives of reusable names

A kernel hands out names (descriptors, handles) that are used and closed and may
then be handed out again. A log of such events is cut into lives: one life for
each opening, with the actions made under its name until it was closed.
-/

namespace Foundation

variable {κ α : Type}

inductive NameEvent (κ α : Type)
  | opens (name : κ)
  | acts (name : κ) (action : α)
  | closes (name : κ)
deriving DecidableEq

structure Life (κ α : Type) where
  name : κ
  acts : List α
  closed : Bool
deriving DecidableEq

section Recording
variable [DecidableEq κ]

/-- A life takes notice of an event only while it is open and under its name. -/
def Life.record (life : Life κ α) : NameEvent κ α → Life κ α
  | .opens _ => life
  | .acts name action =>
      if life.closed = false ∧ life.name = name then
        { life with acts := life.acts ++ [action] }
      else life
  | .closes name =>
      if life.closed = false ∧ life.name = name then { life with closed := true } else life

def born : NameEvent κ α → List (Life κ α)
  | .opens name => [⟨name, [], false⟩]
  | _ => []

def extend (ls : List (Life κ α)) (e : NameEvent κ α) : List (Life κ α) :=
  ls.map (·.record e) ++ born e

/-- All lives of a log, in the order in which they were opened. -/
def lives (log : List (NameEvent κ α)) : List (Life κ α) := log.foldl extend []

theorem lives_append (first second : List (NameEvent κ α)) :
    lives (first ++ second) = second.foldl extend (lives first) := by
  simp [lives]

theorem lives_snoc (log : List (NameEvent κ α)) (e : NameEvent κ α) :
    lives (log ++ [e]) = extend (lives log) e := by
  simp [lives_append]

/-- The names in use, oldest first. -/
def openNames (ls : List (Life κ α)) : List κ :=
  (ls.filter fun life => !life.closed).map (·.name)

@[simp] theorem openNames_opens (ls : List (Life κ α)) (name : κ) :
    openNames (extend ls (.opens name)) = openNames ls ++ [name] := by
  simp [openNames, extend, born, Life.record]

theorem record_acts_name (life : Life κ α) (name : κ) (action : α) :
    (life.record (.acts name action)).name = life.name ∧
      (life.record (.acts name action)).closed = life.closed := by
  by_cases hr : life.closed = false ∧ life.name = name <;> simp [Life.record, hr]

@[simp] theorem openNames_acts (ls : List (Life κ α)) (name : κ) (action : α) :
    openNames (extend ls (.acts name action)) = openNames ls := by
  induction ls with
  | nil => rfl
  | cons life ls ih =>
      simp only [extend, born, List.append_nil, openNames] at ih ⊢
      rw [List.map_cons, List.filter_cons, List.filter_cons, (record_acts_name life name action).2]
      split
      · rw [List.map_cons, List.map_cons, ih, (record_acts_name life name action).1]
      · exact ih

@[simp] theorem openNames_closes (ls : List (Life κ α)) (name : κ) :
    openNames (extend ls (.closes name)) = (openNames ls).filter (· ≠ name) := by
  induction ls with
  | nil => rfl
  | cons life ls ih =>
      simp only [extend, born, List.append_nil, openNames] at ih ⊢
      rw [List.map_cons]
      by_cases hc : life.closed = true
      · have hr : life.record (.closes name) = life := by simp [Life.record, hc]
        simp [hr, hc, ih]
      · simp only [Bool.not_eq_true] at hc
        by_cases hn : life.name = name
        · have hr : (life.record (.closes name)).closed = true := by simp [Life.record, hc, hn]
          simp [hr, hc, hn, ih]
        · have hr : life.record (.closes name) = life := by simp [Life.record, hn]
          simp [hr, hc, hn, ih]

theorem opens_mem {log : List (NameEvent κ α)} {name : κ} (h : name ∈ openNames (lives log)) :
    .opens name ∈ log := by
  induction log using List.reverseRecOn with
  | nil => cases h
  | append_singleton log e ih =>
      rw [lives_snoc] at h
      cases e with
      | opens other =>
          rw [openNames_opens] at h
          rcases List.mem_append.mp h with h | h
          · exact List.mem_append_left _ (ih h)
          · rw [List.mem_singleton.mp h]
            exact List.mem_append_right _ (List.mem_singleton_self _)
      | acts other action =>
          rw [openNames_acts] at h
          exact List.mem_append_left _ (ih h)
      | closes other =>
          rw [openNames_closes] at h
          exact List.mem_append_left _ (ih (List.mem_filter.mp h).1)

/-! ## Disciplined logs -/

/-- An event fits the names in use: fresh names are opened, open ones used. -/
def NameEvent.Fits (names : List κ) : NameEvent κ α → Prop
  | .opens name => name ∉ names
  | .acts name _ => name ∈ names
  | .closes name => name ∈ names

/-- Every event of the log fits the names in use at its moment. -/
def Tidy (log : List (NameEvent κ α)) : Prop :=
  ∀ before e after, log = before ++ e :: after → e.Fits (openNames (lives before))

theorem tidy_nil : Tidy ([] : List (NameEvent κ α)) := by
  intro before e after h
  simp at h

theorem Tidy.snoc {log : List (NameEvent κ α)} {e : NameEvent κ α} (h : Tidy log)
    (he : e.Fits (openNames (lives log))) : Tidy (log ++ [e]) := by
  intro before e' after heq
  rcases List.eq_nil_or_concat after with rfl | ⟨init, last, rfl⟩
  · obtain ⟨rfl, hlast⟩ := List.append_inj' heq rfl
    cases hlast
    exact he
  · rw [List.concat_eq_append, ← List.cons_append, ← List.append_assoc] at heq
    exact h before e' init (List.append_inj' heq rfl).1

theorem nodup_openNames {log : List (NameEvent κ α)} (h : Tidy log) :
    (openNames (lives log)).Nodup := by
  induction log using List.reverseRecOn with
  | nil => simp [lives, openNames]
  | append_singleton log e ih =>
      have hlog : Tidy log := fun before e' after heq =>
        h before e' (after ++ [e]) (by simp [heq])
      have hfit := h log e [] rfl
      rw [lives_snoc]
      cases e with
      | opens name =>
          rw [openNames_opens, List.nodup_append]
          refine ⟨ih hlog, by simp, ?_⟩
          rintro a ha b hb rfl
          exact hfit (by simpa [List.mem_singleton.mp hb] using ha)
      | acts name action => simpa using ih hlog
      | closes name => simpa using (ih hlog).filter _

/-- In a tidy log a name was closed as often as it was opened, one time less
while it is in use. -/
theorem count_opens [DecidableEq α] {log : List (NameEvent κ α)} (h : Tidy log) (name : κ) :
    log.count (.opens name) =
      log.count (.closes name) + (openNames (lives log)).count name := by
  induction log using List.reverseRecOn with
  | nil => simp [lives, openNames]
  | append_singleton log e ih =>
      have hlog : Tidy log := fun before e' after heq =>
        h before e' (after ++ [e]) (by simp [heq])
      have hfit := h log e [] rfl
      have hrec := ih hlog
      rw [lives_snoc, List.count_append, List.count_append]
      cases e with
      | opens other =>
          rw [openNames_opens, List.count_append]
          by_cases hn : other = name
          · subst hn
            simp
            omega
          · simp [hn, hrec]
      | acts other action => simpa using hrec
      | closes other =>
          rw [openNames_closes]
          by_cases hn : other = name
          · subst hn
            have hone := List.count_eq_one_of_mem (nodup_openNames hlog) hfit
            have hzero : ((openNames (lives log)).filter (· ≠ other)).count other = 0 :=
              List.count_eq_zero.mpr (by simp)
            simp only [List.count_singleton_self, hzero]
            have hother :
                [NameEvent.closes other].count (NameEvent.opens other : NameEvent κ α) = 0 := by
              simp
            omega
          · have hkeep : ((openNames (lives log)).filter (· ≠ other)).count name =
                (openNames (lives log)).count name :=
              List.count_filter (by simpa using Ne.symm hn)
            rw [hkeep, hrec]
            simp [hn]

end Recording

end Foundation
