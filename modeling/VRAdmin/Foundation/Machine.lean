import Mathlib.Data.List.Basic

/-! # Machines that emit events

A machine answers each input with a next state and the events it emitted. Which
inputs the environment may offer can depend on the state and on all events so
far; `Reach` collects the states and histories of every run the environment can
make, and `Reach.invariant` is the induction over them.
-/

namespace Foundation

structure Machine (σ ι ε : Type) where
  step : σ → ι → σ × List ε

namespace Machine

variable {σ ι ε : Type}

/-- The states reached from `s₀` with the events emitted on the way. -/
inductive Reach (m : Machine σ ι ε) (allowed : σ → List ε → ι → Prop) (s₀ : σ) :
    σ → List ε → Prop
  | start : Reach m allowed s₀ s₀ []
  | next {s : σ} {log : List ε} {i : ι} : Reach m allowed s₀ s log → allowed s log i →
      Reach m allowed s₀ (m.step s i).1 (log ++ (m.step s i).2)

theorem Reach.invariant {m : Machine σ ι ε} {allowed : σ → List ε → ι → Prop} {s₀ s : σ}
    {log : List ε} {P : σ → List ε → Prop} (h : m.Reach allowed s₀ s log) (start : P s₀ [])
    (next : ∀ s log i, P s log → allowed s log i →
      P (m.step s i).1 (log ++ (m.step s i).2)) : P s log := by
  induction h with
  | start => exact start
  | next _ ha ih => exact next _ _ _ ih ha

/-- Feed a list of inputs. -/
def run (m : Machine σ ι ε) (s : σ) : List ι → σ × List ε
  | [] => (s, [])
  | i :: rest => ((m.run (m.step s i).1 rest).1, (m.step s i).2 ++ (m.run (m.step s i).1 rest).2)

@[simp] theorem run_nil (m : Machine σ ι ε) (s : σ) : m.run s [] = (s, []) := rfl

theorem run_cons (m : Machine σ ι ε) (s : σ) (i : ι) (rest : List ι) :
    m.run s (i :: rest) =
      ((m.run (m.step s i).1 rest).1, (m.step s i).2 ++ (m.run (m.step s i).1 rest).2) := rfl

theorem run_append (m : Machine σ ι ε) (s : σ) (first second : List ι) :
    m.run s (first ++ second) =
      ((m.run (m.run s first).1 second).1,
        (m.run s first).2 ++ (m.run (m.run s first).1 second).2) := by
  induction first generalizing s with
  | nil => simp
  | cons i first ih => simp [run_cons, ih]

/-- A reflexive and transitive relation that holds over each step holds over a run. -/
theorem run_related {m : Machine σ ι ε} {R : σ → List ε → σ → Prop} (refl : ∀ s, R s [] s)
    (trans : ∀ {s t u first second}, R s first t → R t second u → R s (first ++ second) u)
    (step : ∀ s i, R s (m.step s i).2 (m.step s i).1) (s : σ) (is : List ι) :
    R s (m.run s is).2 (m.run s is).1 := by
  induction is generalizing s with
  | nil => exact refl s
  | cons i rest ih => exact trans (step s i) (ih (m.step s i).1)

/-- Every input of the list is allowed at the moment it is offered. -/
def Admits (m : Machine σ ι ε) (allowed : σ → List ε → ι → Prop) :
    σ → List ε → List ι → Prop
  | _, _, [] => True
  | s, log, i :: rest =>
      allowed s log i ∧ m.Admits allowed (m.step s i).1 (log ++ (m.step s i).2) rest

instance decidableAdmits (m : Machine σ ι ε) (allowed : σ → List ε → ι → Prop)
    [dec : ∀ s log i, Decidable (allowed s log i)] :
    ∀ (s : σ) (log : List ε) (is : List ι), Decidable (m.Admits allowed s log is)
  | _, _, [] => isTrue trivial
  | s, log, i :: rest =>
      @instDecidableAnd _ _ (dec s log i)
        (decidableAdmits m allowed (m.step s i).1 (log ++ (m.step s i).2) rest)

theorem admits_append (m : Machine σ ι ε) (allowed : σ → List ε → ι → Prop) (s : σ) (log : List ε)
    (first second : List ι) :
    m.Admits allowed s log (first ++ second) ↔
      m.Admits allowed s log first ∧
        m.Admits allowed (m.run s first).1 (log ++ (m.run s first).2) second := by
  induction first generalizing s log with
  | nil => simp [Admits]
  | cons i first ih => simp [Admits, run_cons, ih, and_assoc]

/-- Two conditions on the inputs that agree in every state with an invariant admit the
same runs from there, when the inputs that meet them keep the invariant. -/
theorem admits_congr {m : Machine σ ι ε} {allowed allowed' : σ → List ε → ι → Prop}
    {I : σ → List ε → Prop} (same : ∀ s log i, I s log → (allowed s log i ↔ allowed' s log i))
    (next : ∀ s log i, I s log → allowed' s log i → I (m.step s i).1 (log ++ (m.step s i).2))
    {s : σ} {log : List ε} (start : I s log) (is : List ι) :
    m.Admits allowed s log is ↔ m.Admits allowed' s log is := by
  induction is generalizing s log with
  | nil => exact Iff.rfl
  | cons i rest ih =>
      exact (and_congr_left' (same s log i start)).trans <|
        and_congr_right fun hi => ih (next s log i start hi)

theorem Reach.run {m : Machine σ ι ε} {allowed : σ → List ε → ι → Prop} {s₀ s : σ}
    {log : List ε} {is : List ι} (h : m.Reach allowed s₀ s log)
    (ha : m.Admits allowed s log is) :
    m.Reach allowed s₀ (m.run s is).1 (log ++ (m.run s is).2) := by
  induction is generalizing s log with
  | nil => simpa using h
  | cons i rest ih => simpa [run_cons] using ih (h.next ha.1) ha.2

/-- A view of a machine in which every allowed step is a run of another machine shows
runs of that machine. -/
theorem Reach.view {τ κ δ : Type} {m : Machine σ ι ε} {n : Machine τ κ δ}
    {allowed : σ → List ε → ι → Prop} {allowed' : τ → List δ → κ → Prop} (state : σ → τ)
    (event : ε → δ) {s₀ s : σ} {log : List ε} (h : m.Reach allowed s₀ s log)
    (step : ∀ s log i, allowed s log i → ∃ is, n.Admits allowed' (state s) (log.map event) is ∧
      n.run (state s) is = (state (m.step s i).1, (m.step s i).2.map event)) :
    n.Reach allowed' (state s₀) (state s) (log.map event) := by
  induction h with
  | start => exact Reach.start
  | next _ ha ih =>
      obtain ⟨is, hadmits, hrun⟩ := step _ _ _ ha
      have hnext := ih.run hadmits
      rw [hrun] at hnext
      rw [List.map_append]
      exact hnext

end Machine

end Foundation
