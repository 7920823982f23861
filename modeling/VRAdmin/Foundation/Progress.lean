import VRAdmin.Foundation.Machine

/-! # Progress of machines

What a machine can still be brought to from a state, by some inputs of the environment,
and what no inputs of a certain kind bring about. A rank that some input always lowers
gives the first, a predicate that each such input keeps the second.
-/

namespace Foundation

namespace Machine

variable {σ ι ε : Type} {m : Machine σ ι ε} {s : σ} {P Q : σ → Prop}

/-- Some inputs lead from the state to one with the property. -/
def Leads (m : Machine σ ι ε) (s : σ) (P : σ → Prop) : Prop := ∃ is, P (m.run s is).1

theorem Leads.here (h : P s) : m.Leads s P := ⟨[], h⟩

theorem Leads.next (i : ι) (h : m.Leads (m.step s i).1 P) : m.Leads s P := by
  obtain ⟨is, his⟩ := h
  exact ⟨i :: is, his⟩

theorem Leads.trans (h : m.Leads s P) (hnext : ∀ t, P t → m.Leads t Q) : m.Leads s Q := by
  obtain ⟨is, his⟩ := h
  obtain ⟨more, hmore⟩ := hnext _ his
  refine ⟨is ++ more, ?_⟩
  rw [run_append]
  exact hmore

theorem Leads.mono (h : m.Leads s P) (hsub : ∀ t, P t → Q t) : m.Leads s Q :=
  h.trans fun t ht => Leads.here (hsub t ht)

/-- Until it is done some input lowers the rank and keeps the property. -/
theorem Leads.descend {α : Type} {lt : α → α → Prop} (hwf : WellFounded lt) (rank : σ → α)
    {done : σ → Prop}
    (hstep : ∀ t, P t → ¬ done t → ∃ i, P (m.step t i).1 ∧ lt (rank (m.step t i).1) (rank t))
    (hs : P s) : m.Leads s fun t => P t ∧ done t := by
  induction hr : rank s using hwf.induction generalizing s with
  | h r ih =>
      by_cases hdone : done s
      · exact Leads.here ⟨hs, hdone⟩
      · obtain ⟨i, hi, hlt⟩ := hstep s hs hdone
        exact Leads.next i (ih _ (hr ▸ hlt) hi rfl)

/-- While the rank is not zero some input lowers it and keeps the property. -/
theorem Leads.countdown {rank : σ → Nat}
    (hstep : ∀ t, P t → rank t ≠ 0 → ∃ i, P (m.step t i).1 ∧ rank (m.step t i).1 < rank t)
    (hs : P s) : m.Leads s fun t => P t ∧ rank t = 0 :=
  Leads.descend Nat.lt_wfRel.wf rank hstep hs

theorem run_keeps {kind : ι → Prop} (hstep : ∀ t i, P t → kind i → P (m.step t i).1)
    {is : List ι} (hkind : ∀ i ∈ is, kind i) (hs : P s) : P (m.run s is).1 := by
  induction is generalizing s with
  | nil => exact hs
  | cons i rest ih =>
      rw [run_cons]
      exact ih (fun j hj => hkind j (List.mem_cons_of_mem i hj))
        (hstep s i hs (hkind i List.mem_cons_self))

theorem Leads.keep (h : m.Leads s P) (hstep : ∀ t i, Q t → Q (m.step t i).1) (hs : Q s) :
    m.Leads s fun t => P t ∧ Q t := by
  obtain ⟨is, his⟩ := h
  have hkeep : Q (m.run s is).1 :=
    run_keeps (fun t i ht (_ : True) => hstep t i ht) (fun _ _ => trivial) hs
  exact ⟨is, his, hkeep⟩

end Machine

end Foundation
