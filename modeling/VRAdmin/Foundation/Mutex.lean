import Mathlib.Logic.Basic

/-! # Who holds a mutex

A mutex is the thread that has locked it, if any. Threads lock it for a reason, such
as an object under construction; `Guards` says that at most one reason is in force
and that its thread is the holder. Locking a free mutex and giving up the reason in
force keep it, and with it comes that every unlock is made by the holder.
-/

namespace Foundation

structure Guards {α T : Type} (holder : Option T) (thread : α → T) (reason : α → Prop) : Prop where
  one : ∀ a b, reason a → reason b → a = b
  held : ∀ a, reason a → holder = some (thread a)

namespace Guards

variable {α T : Type} {holder : Option T} {thread : α → T} {reason reason' : α → Prop} {a : α}

theorem free (thread : α → T) (h : ∀ a, ¬ reason a) : Guards none thread reason :=
  ⟨fun a _ ha => absurd ha (h a), fun a ha => absurd ha (h a)⟩

theorem not_reason (h : Guards holder thread reason) (hfree : holder = none) (a : α) :
    ¬ reason a := by
  intro ha
  have hheld := h.held a ha
  rw [hfree] at hheld
  exact nomatch hheld

theorem mono (h : Guards holder thread reason) (hsub : ∀ b, reason' b → reason b) :
    Guards holder thread reason' :=
  ⟨fun b c hb hc => h.one b c (hsub b hb) (hsub c hc), fun b hb => h.held b (hsub b hb)⟩

theorem lock (h : Guards holder thread reason) (hfree : holder = none)
    (hnew : ∀ b, reason' b → reason b ∨ b = a) : Guards (some (thread a)) thread reason' := by
  have honly (b : α) (hb : reason' b) : b = a :=
    (hnew b hb).resolve_left (h.not_reason hfree b)
  refine ⟨fun b c hb hc => (honly b hb).trans (honly c hc).symm, fun b hb => ?_⟩
  rw [honly b hb]

theorem unlock (h : Guards holder thread reason) (ha : reason a)
    (hless : ∀ b, reason' b → reason b ∧ b ≠ a) : Guards none thread reason' :=
  free thread fun b hb => (hless b hb).2 (h.one b a (hless b hb).1 ha)

end Guards

end Foundation
