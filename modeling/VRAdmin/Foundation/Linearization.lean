import Mathlib.Data.List.Nodup

/-! # Linearizable histories

Calls of an object overlap: each begins and later returns. A history of them is
linearizable when the calls that have returned, with some of the others, can be put in
an order in which a sequential object gives the same results, and in which a call that
had returned before another began comes first. Such an order is kept by the three
things that a call does: it begins, it takes effect in one step, and it returns.
-/

namespace Foundation

inductive HistoryEvent (κ ρ : Type)
  | invoked (op : Nat) (call : κ)
  | returned (op : Nat) (result : ρ)
deriving DecidableEq

/-- A call at its place in the order. -/
structure Point (κ ρ : Type) where
  op : Nat
  call : κ
  result : ρ

section Histories

variable {σ κ ρ : Type}

def HistoryEvent.begins : HistoryEvent κ ρ → Option Nat
  | .invoked op _ => some op
  | .returned _ _ => none

def HistoryEvent.ends : HistoryEvent κ ρ → Option Nat
  | .invoked _ _ => none
  | .returned op _ => some op

/-- Each call begins once and returns at most once, behind its begin. -/
structure WellFormed (history : List (HistoryEvent κ ρ)) : Prop where
  begins : (history.filterMap HistoryEvent.begins).Nodup
  ends : (history.filterMap HistoryEvent.ends).Nodup
  behind : ∀ before op result, before ++ [.returned op result] <+: history →
    ∃ call, .invoked op call ∈ before

/-- What a sequential object does on the calls of the list. -/
inductive Legal (spec : σ → κ → ρ → σ → Prop) (s₀ : σ) : List (Point κ ρ) → σ → Prop
  | start : Legal spec s₀ [] s₀
  | next {points : List (Point κ ρ)} {s s' : σ} {p : Point κ ρ} : Legal spec s₀ points s →
      spec s p.call p.result s' → Legal spec s₀ (points ++ [p]) s'

structure Linearization (spec : σ → κ → ρ → σ → Prop) (s₀ s : σ)
    (history : List (HistoryEvent κ ρ)) (points : List (Point κ ρ)) : Prop where
  legal : Legal spec s₀ points s
  once : (points.map Point.op).Nodup
  invoked : ∀ p ∈ points, .invoked p.op p.call ∈ history
  returned : ∀ op result, .returned op result ∈ history →
    ∃ p ∈ points, p.op = op ∧ p.result = result
  inOrder : ∀ before p, before ++ [.invoked p.op p.call] <+: history → p ∈ points →
    ∀ op result, .returned op result ∈ before →
      ∃ q front, front ++ [p] <+: points ∧ q ∈ front ∧ q.op = op ∧ q.result = result

theorem mem_begins {history : List (HistoryEvent κ ρ)} {op : Nat} :
    op ∈ history.filterMap HistoryEvent.begins ↔ ∃ call, .invoked op call ∈ history := by
  rw [List.mem_filterMap]
  constructor
  · rintro ⟨e, he, hop⟩
    cases e with
    | invoked own call =>
        obtain rfl : own = op := Option.some.inj hop
        exact ⟨call, he⟩
    | returned _ _ => exact absurd hop (by simp [HistoryEvent.begins])
  · rintro ⟨call, hcall⟩
    exact ⟨_, hcall, rfl⟩

theorem mem_ends {history : List (HistoryEvent κ ρ)} {op : Nat} :
    op ∈ history.filterMap HistoryEvent.ends ↔ ∃ result, .returned op result ∈ history := by
  rw [List.mem_filterMap]
  constructor
  · rintro ⟨e, he, hop⟩
    cases e with
    | invoked _ _ => exact absurd hop (by simp [HistoryEvent.ends])
    | returned own result =>
        obtain rfl : own = op := Option.some.inj hop
        exact ⟨result, he⟩
  · rintro ⟨result, hresult⟩
    exact ⟨_, hresult, rfl⟩

namespace WellFormed

variable {history : List (HistoryEvent κ ρ)} {op : Nat}

theorem nil : WellFormed ([] : List (HistoryEvent κ ρ)) :=
  ⟨List.nodup_nil, List.nodup_nil, by simp⟩

theorem invoke (h : WellFormed history) {call : κ} (hnew : ∀ c, .invoked op c ∉ history) :
    WellFormed (history ++ [.invoked op call]) where
  begins := by
    rw [List.filterMap_append]
    refine List.nodup_append_comm.mp (List.nodup_cons.mpr ⟨fun hmem => ?_, h.begins⟩)
    obtain ⟨c, hc⟩ := mem_begins.mp hmem
    exact hnew c hc
  ends := by
    rw [List.filterMap_append]
    exact (List.append_nil _).symm ▸ h.ends
  behind before o result hpre := by
    rcases List.prefix_concat_iff.mp hpre with heq | hold
    · obtain ⟨-, he⟩ := List.append_inj' heq rfl
      exact absurd (List.singleton_inj.mp he) (by simp)
    · exact h.behind before o result hold

theorem finish (h : WellFormed history) {call : κ} {result : ρ}
    (hcall : .invoked op call ∈ history) (hnot : ∀ r, .returned op r ∉ history) :
    WellFormed (history ++ [.returned op result]) where
  begins := by
    rw [List.filterMap_append]
    exact (List.append_nil _).symm ▸ h.begins
  ends := by
    rw [List.filterMap_append]
    refine List.nodup_append_comm.mp (List.nodup_cons.mpr ⟨fun hmem => ?_, h.ends⟩)
    obtain ⟨r, hr⟩ := mem_ends.mp hmem
    exact hnot r hr
  behind before o r hpre := by
    rcases List.prefix_concat_iff.mp hpre with heq | hold
    · obtain ⟨rfl, he⟩ := List.append_inj' heq rfl
      obtain ⟨rfl, -⟩ := HistoryEvent.returned.inj (List.singleton_inj.mp he)
      exact ⟨call, hcall⟩
    · exact h.behind before o r hold

end WellFormed

namespace Linearization

variable {spec : σ → κ → ρ → σ → Prop} {s₀ s s' : σ} {history : List (HistoryEvent κ ρ)}
  {points : List (Point κ ρ)} {op : Nat} {call : κ} {result : ρ}

theorem nil (spec : σ → κ → ρ → σ → Prop) (s₀ : σ) : Linearization spec s₀ s₀ [] [] :=
  ⟨.start, List.nodup_nil, by simp, by simp, by simp⟩

theorem invoke (h : Linearization spec s₀ s history points) (hnew : ∀ c, .invoked op c ∉ history) :
    Linearization spec s₀ s (history ++ [.invoked op call]) points where
  legal := h.legal
  once := h.once
  invoked p hp := List.mem_append_left _ (h.invoked p hp)
  returned o r hr := by
    rcases List.mem_append.mp hr with hold | hr
    · exact h.returned o r hold
    · exact absurd (List.mem_singleton.mp hr) (by simp)
  inOrder before p hpre hp := by
    rcases List.prefix_concat_iff.mp hpre with heq | hold
    · -- a call that begins now has no place yet
      obtain ⟨-, he⟩ := List.append_inj' heq rfl
      obtain ⟨rfl, -⟩ := HistoryEvent.invoked.inj (List.singleton_inj.mp he)
      exact absurd (h.invoked p hp) (hnew p.call)
    · exact h.inOrder before p hold hp

/-- The call gets the last place: all that have returned are in front of it. -/
theorem takeEffect (h : Linearization spec s₀ s history points)
    (hcall : .invoked op call ∈ history) (hop : op ∉ points.map Point.op)
    (hspec : spec s call result s') :
    Linearization spec s₀ s' history (points ++ [⟨op, call, result⟩]) where
  legal := .next h.legal hspec
  once := by
    rw [List.map_append]
    exact List.nodup_append_comm.mp (List.nodup_cons.mpr ⟨hop, h.once⟩)
  invoked p hp := by
    rcases List.mem_append.mp hp with hold | hp
    · exact h.invoked p hold
    · rw [List.mem_singleton.mp hp]
      exact hcall
  returned o r hr := by
    obtain ⟨p, hp, hown⟩ := h.returned o r hr
    exact ⟨p, List.mem_append_left _ hp, hown⟩
  inOrder before p hpre hp o r hr := by
    rcases List.mem_append.mp hp with hold | hp
    · obtain ⟨q, front, hfront, hq⟩ := h.inOrder before p hpre hold o r hr
      exact ⟨q, front, hfront.trans (List.prefix_append _ _), hq⟩
    · obtain ⟨q, hq, hown⟩ := h.returned o r
        (hpre.subset (List.mem_append_left _ hr))
      rw [List.mem_singleton.mp hp]
      exact ⟨q, points, List.prefix_refl _, hq, hown⟩

theorem finish (h : Linearization spec s₀ s history points) {p : Point κ ρ} (hp : p ∈ points)
    (hop : p.op = op) (hresult : p.result = result) :
    Linearization spec s₀ s (history ++ [.returned op result]) points where
  legal := h.legal
  once := h.once
  invoked q hq := List.mem_append_left _ (h.invoked q hq)
  returned o r hr := by
    rcases List.mem_append.mp hr with hold | hr
    · exact h.returned o r hold
    · obtain ⟨rfl, rfl⟩ := HistoryEvent.returned.inj (List.mem_singleton.mp hr)
      exact ⟨p, hp, hop, hresult⟩
  inOrder before q hpre hq := by
    rcases List.prefix_concat_iff.mp hpre with heq | hold
    · obtain ⟨-, he⟩ := List.append_inj' heq rfl
      exact absurd (List.singleton_inj.mp he) (by simp)
    · exact h.inOrder before q hold hq

end Linearization

end Histories

end Foundation
