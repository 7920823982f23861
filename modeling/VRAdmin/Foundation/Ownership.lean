import VRAdmin.Foundation.Lives

/-! # What a log owns

A tidy log with the names that it leaves in use. Each event has one rule: a fresh name
is added, a name in use can be used and is taken out when it is closed. For blocks of
memory, tidy says that none is used or freed after it was freed, and the names
in use at the end are what was never freed.
-/

namespace Foundation

variable {κ α : Type} [DecidableEq κ]

structure Owns (log : List (NameEvent κ α)) (names : List κ) : Prop where
  tidy : Tidy log
  exact : openNames (lives log) = names

namespace Owns

variable {log : List (NameEvent κ α)} {names front back : List κ} {name : κ}

theorem start : Owns ([] : List (NameEvent κ α)) [] := ⟨tidy_nil, rfl⟩

theorem nodup (h : Owns log names) : names.Nodup := h.exact ▸ nodup_openNames h.tidy

theorem opens (h : Owns log names) (hfresh : name ∉ names) :
    Owns (log ++ [.opens name]) (names ++ [name]) where
  tidy := h.tidy.snoc (show name ∉ openNames (lives log) from h.exact ▸ hfresh)
  exact := by rw [lives_snoc, openNames_opens, h.exact]

/-- A supplier of names that knows the log, asked for one more. -/
theorem opens_fresh (h : Owns log names) {fresh : List (NameEvent κ α) → κ}
    (hfresh : ∀ log, fresh log ∉ openNames (lives log)) :
    Owns (log ++ [.opens (fresh log)]) (names ++ [fresh log]) :=
  h.opens (h.exact ▸ hfresh log)

theorem acts (h : Owns log names) (hmem : name ∈ names) (action : α) :
    Owns (log ++ [.acts name action]) names where
  tidy := h.tidy.snoc (show name ∈ openNames (lives log) from h.exact ▸ hmem)
  exact := by rw [lives_snoc, openNames_acts, h.exact]

theorem closes (h : Owns log names) (hmem : name ∈ names) :
    Owns (log ++ [.closes name]) (names.filter (· ≠ name)) where
  tidy := h.tidy.snoc (show name ∈ openNames (lives log) from h.exact ▸ hmem)
  exact := by rw [lives_snoc, openNames_closes, h.exact]

/-- Closing takes out the one place of the name. -/
theorem closes_between (h : Owns log (front ++ name :: back)) :
    Owns (log ++ [.closes name]) (front ++ back) := by
  have hclosed := h.closes (List.mem_append_right front List.mem_cons_self)
  obtain ⟨hfront, hback⟩ : name ∉ front ∧ name ∉ back := by
    have hnodup := List.nodup_middle.mp h.nodup
    rw [List.nodup_cons, List.mem_append, not_or] at hnodup
    exact hnodup.1
  have hkeep (xs : List κ) (hxs : name ∉ xs) : xs.filter (· ≠ name) = xs := by
    rw [List.filter_eq_self]
    intro x hx
    exact decide_eq_true fun heq : x = name => hxs (heq ▸ hx)
  rwa [List.filter_append, List.filter_cons_of_neg (by simp), hkeep front hfront,
    hkeep back hback] at hclosed

theorem acts_all (h : Owns log names) (action : α) {used : List κ} (hsub : ∀ u ∈ used, u ∈ names) :
    Owns (log ++ used.map (.acts · action)) names := by
  induction used generalizing log with
  | nil => simpa using h
  | cons u used ih =>
      have hrest := ih (h.acts (hsub u List.mem_cons_self) action) fun v hv =>
        hsub v (List.mem_cons_of_mem u hv)
      rwa [List.append_assoc] at hrest

theorem closes_all (h : Owns log names) {closed : List κ} (hnodup : closed.Nodup)
    (hsub : ∀ c ∈ closed, c ∈ names) :
    Owns (log ++ closed.map .closes) (names.filter (· ∉ closed)) := by
  induction closed generalizing log names with
  | nil => simpa using h
  | cons c closed ih =>
      obtain ⟨hnew, hnodup⟩ := List.nodup_cons.mp hnodup
      have hrest := ih (h.closes (hsub c List.mem_cons_self)) hnodup fun d hd => by
        refine List.mem_filter.mpr ⟨hsub d (List.mem_cons_of_mem c hd), decide_eq_true ?_⟩
        rintro rfl
        exact hnew hd
      rw [List.append_assoc] at hrest
      have hfilter : (names.filter (· ≠ c)).filter (· ∉ closed) =
          names.filter (· ∉ c :: closed) := by
        rw [List.filter_filter]
        apply List.filter_congr
        intro x _
        simp [Bool.and_comm]
      rwa [hfilter] at hrest

end Owns

end Foundation
