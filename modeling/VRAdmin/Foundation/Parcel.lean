import VRAdmin.Foundation.CString

/-! # Parcels with typed values in order

What code that marshals its arguments needs of a parcel: values are written one
after the other, and the receiver reads back the same values in the same order.
The parcel is a parameter; `Unread p vs` says that `vs` is what a reader of `p`
still has before it.
-/

namespace Foundation

/-- A value in a parcel; binder objects are of type `β`. -/
inductive ParcelValue (β : Type)
  | token (descriptor : Bytes)
  | string8 (text : Bytes)
  | int32 (n : Int32)
  | strongBinder (binder : Option β)
deriving DecidableEq

/-- The operations of a parcel of type `P`. `carry` is what the other process
receives; a reading operation also gives the parcel with its position moved. -/
structure ParcelOps (P β : Type) where
  fresh : P
  carry : P → P
  writeInterfaceToken : P → Bytes → P
  writeString8 : P → Bytes → P
  writeInt32 : P → Int32 → P
  writeStrongBinder : P → Option β → P
  checkInterface : P → Bytes → Bool × P
  readString8 : P → Bytes × P
  readInt32 : P → Int32 × P
  readStrongBinder : P → Option β × P

/-- A parcel gives typed values back in the order in which they were written. -/
structure ParcelOps.Fifo {P β : Type} (ops : ParcelOps P β)
    (Unread : P → List (ParcelValue β) → Prop) : Prop where
  fresh : Unread ops.fresh []
  carry : ∀ {p vs}, Unread p vs → Unread (ops.carry p) vs
  writeInterfaceToken : ∀ {p vs}, Unread p vs → ∀ d,
    Unread (ops.writeInterfaceToken p d) (vs ++ [.token d])
  writeString8 : ∀ {p vs}, Unread p vs → ∀ text,
    Unread (ops.writeString8 p text) (vs ++ [.string8 text])
  writeInt32 : ∀ {p vs}, Unread p vs → ∀ n, Unread (ops.writeInt32 p n) (vs ++ [.int32 n])
  writeStrongBinder : ∀ {p vs}, Unread p vs → ∀ b,
    Unread (ops.writeStrongBinder p b) (vs ++ [.strongBinder b])
  checkInterface : ∀ {p d vs}, Unread p (.token d :: vs) → ∀ expected,
    (ops.checkInterface p expected).1 = decide (d = expected) ∧
      Unread (ops.checkInterface p expected).2 vs
  readString8 : ∀ {p text vs}, Unread p (.string8 text :: vs) →
    (ops.readString8 p).1 = text ∧ Unread (ops.readString8 p).2 vs
  readInt32 : ∀ {p n vs}, Unread p (.int32 n :: vs) →
    (ops.readInt32 p).1 = n ∧ Unread (ops.readInt32 p).2 vs
  readStrongBinder : ∀ {p b vs}, Unread p (.strongBinder b :: vs) →
    (ops.readStrongBinder p).1 = b ∧ Unread (ops.readStrongBinder p).2 vs

/-! ## The parcel that is a list of values -/

section ListParcel

variable {β : Type}

/-- Read the first value if it has the wanted type, else a default. -/
def popValue {α : Type} (pick : ParcelValue β → Option α) (default : α)
    (p : List (ParcelValue β)) : α × List (ParcelValue β) :=
  match p with
  | [] => (default, [])
  | v :: rest => ((pick v).getD default, rest)

def listParcel (β : Type) : ParcelOps (List (ParcelValue β)) β where
  fresh := []
  carry p := p
  writeInterfaceToken p d := p ++ [.token d]
  writeString8 p text := p ++ [.string8 text]
  writeInt32 p n := p ++ [.int32 n]
  writeStrongBinder p b := p ++ [.strongBinder b]
  checkInterface p expected := popValue
    (fun v => match v with | .token d => some (decide (d = expected)) | _ => none) false p
  readString8 := popValue (fun v => match v with | .string8 text => some text | _ => none) []
  readInt32 := popValue (fun v => match v with | .int32 n => some n | _ => none) 0
  readStrongBinder :=
    popValue (fun v => match v with | .strongBinder b => some b | _ => none) none

theorem listParcel_fifo (β : Type) : (listParcel β).Fifo Eq where
  fresh := rfl
  carry h := h
  writeInterfaceToken h _ := h ▸ rfl
  writeString8 h _ := h ▸ rfl
  writeInt32 h _ := h ▸ rfl
  writeStrongBinder h _ := h ▸ rfl
  checkInterface h _ := h ▸ ⟨rfl, rfl⟩
  readString8 h := h ▸ ⟨rfl, rfl⟩
  readInt32 h := h ▸ ⟨rfl, rfl⟩
  readStrongBinder h := h ▸ ⟨rfl, rfl⟩

end ListParcel

end Foundation
