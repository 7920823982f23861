import Mathlib.Data.List.Basic

/-! # Codes that are read word by word

A code gives each symbol a word that a reader recognizes at the front of any text.
The words of a text then read back one after the other, and different texts have
different encodings.
-/

namespace Foundation

/-- Words `encode a`, and a reader that takes one word off the front. -/
structure PrefixCode (α σ : Type) where
  encode : α → List σ
  read : List σ → Option (α × List σ)
  read_encode : ∀ a rest, read (encode a ++ rest) = some (a, rest)
  encode_ne_nil : ∀ a, encode a ≠ []

namespace PrefixCode

variable {α σ : Type} (code : PrefixCode α σ)

def encodeAll (text : List α) : List σ := text.flatMap code.encode

@[simp] theorem encodeAll_nil : code.encodeAll [] = [] := rfl

@[simp] theorem encodeAll_cons (a : α) (text : List α) :
    code.encodeAll (a :: text) = code.encode a ++ code.encodeAll text := List.flatMap_cons

/-- Read words until nothing is left; a word that cannot be read fails the whole. -/
def readAux : Nat → List σ → Option (List α)
  | _, [] => some []
  | 0, _ :: _ => none
  | fuel + 1, s :: input =>
      match code.read (s :: input) with
      | none => none
      | some (a, rest) => (readAux fuel rest).map (a :: ·)

/-- No word is empty, so the length of the input is fuel enough. -/
def readAll (input : List σ) : Option (List α) := code.readAux input.length input

theorem length_le_encodeAll (text : List α) : text.length ≤ (code.encodeAll text).length := by
  induction text with
  | nil => exact Nat.le_refl 0
  | cons a text ih =>
      have hpos := List.length_pos_iff.mpr (code.encode_ne_nil a)
      rw [encodeAll_cons, List.length_append, List.length_cons]
      omega

theorem readAux_encodeAll (text : List α) {fuel : Nat} (h : text.length ≤ fuel) :
    code.readAux fuel (code.encodeAll text) = some text := by
  induction text generalizing fuel with
  | nil => cases fuel <;> rfl
  | cons a text ih =>
      cases fuel with
      | zero => exact absurd h (by simp)
      | succ fuel =>
          have hread := code.read_encode a (code.encodeAll text)
          obtain ⟨s, input, hword⟩ := List.exists_cons_of_ne_nil (code.encode_ne_nil a)
          rw [encodeAll_cons]
          rw [hword, List.cons_append] at hread ⊢
          simp only [readAux, hread, ih (Nat.le_of_succ_le_succ h), Option.map_some]

theorem readAll_encodeAll (text : List α) : code.readAll (code.encodeAll text) = some text :=
  code.readAux_encodeAll text (code.length_le_encodeAll text)

theorem encodeAll_injective : Function.Injective code.encodeAll := by
  intro s t h
  have hs := code.readAll_encodeAll s
  rw [h, code.readAll_encodeAll] at hs
  exact (Option.some.inj hs).symm

end PrefixCode

end Foundation
