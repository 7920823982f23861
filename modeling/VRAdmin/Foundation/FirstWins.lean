import Mathlib.Data.List.Induction
import Mathlib.Data.List.Nodup

/-! # Insertion where the first entry wins

Association lists that keep the entry which came first under a key, as
`std::map::insert` does, and the order in which keys first appeared.
-/

namespace Foundation

variable {κ β : Type} [BEq κ] [LawfulBEq κ]

/-- Insert unless the key is present. -/
def insertNew (table : List (κ × β)) (entry : κ × β) : List (κ × β) :=
  if (table.lookup entry.1).isSome then table else table ++ [entry]

theorem lookup_insertNew (table : List (κ × β)) (entry : κ × β) (key : κ) :
    (insertNew table entry).lookup key = (table.lookup key).or ([entry].lookup key) := by
  obtain ⟨own, value⟩ := entry
  unfold insertNew
  split
  · next hsome =>
      by_cases hk : key = own
      · subst hk
        obtain ⟨present, hv⟩ := Option.isSome_iff_exists.mp hsome
        simp [hv]
      · have hb : (key == own) = false := by simpa using hk
        simp [List.lookup_cons, hb]
  · rw [List.lookup_append]

/-- Inserting a list of entries leaves under each key what was there, and else
the first of the list's entries for it. -/
theorem lookup_foldl_insertNew (entries table : List (κ × β)) (key : κ) :
    (entries.foldl insertNew table).lookup key = (table.lookup key).or (entries.lookup key) := by
  induction entries generalizing table with
  | nil => simp
  | cons entry entries ih =>
      rw [List.foldl_cons, ih, lookup_insertNew, Option.or_assoc, ← List.lookup_append]
      rfl

theorem eraseDups_snoc (keys : List κ) (key : κ) :
    (keys ++ [key]).eraseDups =
      if key ∈ keys.eraseDups then keys.eraseDups else keys.eraseDups ++ [key] := by
  rw [List.eraseDups_append]
  by_cases hk : key ∈ keys <;> simp [List.removeAll, hk, List.eraseDups_cons]

theorem nodup_eraseDups (keys : List κ) : keys.eraseDups.Nodup := by
  induction keys using List.reverseRecOn with
  | nil => simp
  | append_singleton keys key ih =>
      rw [eraseDups_snoc]
      split
      · exact ih
      · next hnew =>
          rw [List.nodup_append]
          refine ⟨ih, by simp, ?_⟩
          rintro a ha b hb rfl
          exact hnew (by simpa [List.mem_singleton.mp hb] using ha)

theorem find?_eraseDups (p : κ → Bool) (keys : List κ) :
    keys.eraseDups.find? p = keys.find? p := by
  induction keys using List.reverseRecOn with
  | nil => simp
  | append_singleton keys key ih =>
      rw [eraseDups_snoc, List.find?_append, ← ih]
      split
      · next hmem =>
          cases hf : keys.eraseDups.find? p with
          | some found => simp
          | none =>
              have hp := List.find?_eq_none.mp hf key hmem
              simp [hp]
      · rw [List.find?_append]

/-- Changing the value found under a key of a duplicate-free list of keys. -/
theorem modify_map_findIdx? {β' : Type} {p : κ → Bool} {f : κ → β'} (g : β' → β')
    {keys : List κ} (hn : keys.Nodup) {key : κ} (hp : ∀ k ∈ keys, p k = true ↔ k = key) {i : Nat}
    (hi : keys.findIdx? p = some i) :
    (keys.map f).modify i g = keys.map fun k => if k == key then g (f k) else f k := by
  induction keys generalizing i with
  | nil => simp at hi
  | cons k keys ih =>
      rw [List.nodup_cons] at hn
      rw [List.findIdx?_cons] at hi
      by_cases hk : k = key
      · rw [if_pos ((hp k (by simp)).mpr hk)] at hi
        cases hi
        have hrest : ∀ x ∈ keys, f x = if x == key then g (f x) else f x := by
          intro x hx
          have hne : x ≠ key := fun h => hn.1 (by rw [hk, ← h]; exact hx)
          simp [hne]
        simp [hk, ← List.map_congr_left hrest]
      · rw [if_neg (fun h => hk ((hp k (by simp)).mp h))] at hi
        obtain ⟨j, hj, rfl⟩ := Option.map_eq_some_iff.mp hi
        have hrec := ih hn.2 (fun x hx => hp x (by simp [hx])) hj
        simp [hk, hrec]

omit [BEq κ] [LawfulBEq κ] in
/-- Distinct keys are each found at their own place by a coarser equality exactly when
it is no coarser on them. -/
theorem findIdx?_self_iff {R : κ → κ → Prop} [DecidableRel R] (hR : Equivalence R)
    {keys : List κ} (hn : keys.Nodup) :
    (∀ i k, keys[i]? = some k → keys.findIdx? (fun other => R k other) = some i) ↔
      ∀ a ∈ keys, ∀ b ∈ keys, R a b → a = b := by
  constructor
  · intro hself a ha b hb hab
    obtain ⟨i, hi⟩ := List.getElem?_of_mem ha
    obtain ⟨j, hj⟩ := List.getElem?_of_mem hb
    have hsame : (fun other => decide (R a other)) = fun other => decide (R b other) := by
      funext other
      exact decide_eq_decide.mpr ⟨hR.trans (hR.symm hab), hR.trans hab⟩
    have hfound := hself i a hi
    rw [hsame, hself j b hj, Option.some.injEq] at hfound
    rw [hfound, hi, Option.some.injEq] at hj
    exact hj
  · intro hinj i k hi
    obtain ⟨hlt, hk⟩ := List.getElem?_eq_some_iff.mp hi
    rw [List.findIdx?_eq_some_iff_getElem]
    refine ⟨hlt, by simpa [hk] using hR.refl k, fun j hj hmatch => ?_⟩
    have hjk := hinj k (hk ▸ List.getElem_mem hlt) _ (List.getElem_mem (Nat.lt_trans hj hlt))
      (by simpa using hmatch)
    have hij := (List.Nodup.getElem_inj_iff hn).mp (hk.trans hjk)
    omega

end Foundation
