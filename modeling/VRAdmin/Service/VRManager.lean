import VRAdmin.Binder.IVRNativeService

/-! # From Java to the binder interface

`VRManager` calls its native methods, which turn their Java strings into `String8`
and call the service that the service manager knows. `none` is an abort of the
process, as `GetStringUTFChars` on a null string causes it.
-/

namespace VRAdmin

open Foundation

/-- A Java string by its UTF-16 units. -/
abbrev JString := List UInt16

namespace JString

def lit (text : String) : JString := text.toList.map fun c => c.val.toUInt16

/-- One unit in modified UTF-8, in which no byte is NUL. -/
def utfUnit (u : UInt16) : Bytes :=
  let continuation (v : UInt16) : UInt8 := ((v &&& 0x3F) ||| 0x80).toUInt8
  if u ≠ 0 ∧ u < 0x80 then [u.toUInt8]
  else if u < 0x800 then [((u >>> 6) ||| 0xC0).toUInt8, continuation u]
  else [((u >>> 12) ||| 0xE0).toUInt8, continuation (u >>> 6), continuation u]

/-- `GetStringUTFChars`. -/
def utfChars (s : JString) : Bytes := s.flatMap utfUnit

end JString

/-- `JStringToString8`. -/
def jStringToString8 (jstr : Option JString) : Option String8 :=
  jstr.map fun s => cstr s.utfChars

section Native

variable {S β : Type}

/-- The native methods with two strings and a result; both strings are read before
they are compared with null. -/
def nativeSet (method : IVRNativeService S β → S → String8 → String8 → S × Int32)
    (vr : Option (IVRNativeService S β)) (s : S) (jfirst jsecond : Option JString) :
    Option (S × Int32) := do
  let first ← jStringToString8 jfirst
  let second ← jStringToString8 jsecond
  if jfirst = none ∨ jsecond = none then return (s, -1)
  match vr with
  | none => return (s, -1)
  | some vr => return method vr s first second

def nativeSetSystemNode : Option (IVRNativeService S β) → S → Option JString → Option JString →
    Option (S × Int32) :=
  nativeSet IVRNativeService.setSystemNode

def nativeSetProperty : Option (IVRNativeService S β) → S → Option JString → Option JString →
    Option (S × Int32) :=
  nativeSet IVRNativeService.setProperty

/-- The native methods with a string and an out-parameter. -/
def nativeGet (method : IVRNativeService S β → S → String8 → String8 → S × Int32 × String8)
    (newStringUTF : CString → Option JString) (vr : Option (IVRNativeService S β)) (s : S)
    (jarg : Option JString) : Option (S × Option JString) := do
  let arg ← jStringToString8 jarg
  if jarg = none then return (s, newStringUTF default)
  match vr with
  | none => return (s, newStringUTF default)
  | some vr =>
      let (s', _, value) := method vr s arg []
      return (s', newStringUTF (CString.ofMem value))

def nativeGetSystemNode : (CString → Option JString) → Option (IVRNativeService S β) → S →
    Option JString → Option (S × Option JString) :=
  nativeGet IVRNativeService.getSystemNode

def nativeGetProperty : (CString → Option JString) → Option (IVRNativeService S β) → S →
    Option JString → Option (S × Option JString) :=
  nativeGet IVRNativeService.getProperty

/-- The one native method that does not compare its string with null. -/
def nativeSystemCall (newStringUTF : CString → Option JString)
    (vr : Option (IVRNativeService S β)) (s : S) (jcmd : Option JString) :
    Option (S × Option JString) := do
  let cmd ← jStringToString8 jcmd
  match vr with
  | none => return (s, newStringUTF default)
  | some vr =>
      let (s', _, result) := vr.systemCall s cmd []
      return (s', newStringUTF (CString.ofMem result))

/-- `VRManager` by what `getVRService` gives its native methods. -/
structure VRManager (S β : Type) where
  getVRService : Option (IVRNativeService S β)

namespace VRManager

def setSystemNode (m : VRManager S β) (s : S) (path value : Option JString) : Option (S × Int32) :=
  nativeSetSystemNode m.getVRService s path value

def setProperty (m : VRManager S β) (s : S) (key value : Option JString) : Option (S × Int32) :=
  nativeSetProperty m.getVRService s key value

def getSystemNode (m : VRManager S β) (newStringUTF : CString → Option JString) (s : S)
    (path : Option JString) : Option (S × Option JString) :=
  nativeGetSystemNode newStringUTF m.getVRService s path

def systemCall (m : VRManager S β) (newStringUTF : CString → Option JString) (s : S)
    (cmd : Option JString) : Option (S × Option JString) :=
  nativeSystemCall newStringUTF m.getVRService s cmd

def getProperty (m : VRManager S β) (newStringUTF : CString → Option JString) (s : S)
    (key : Option JString) : Option (S × Option JString) :=
  nativeGetProperty newStringUTF m.getVRService s key

end VRManager

end Native

end VRAdmin
