import VRAdmin.Foundation.CString
import VRAdmin.Foundation.FirstWins

/-! # One SDK entry

`VrSDK` holds the type, the version and the feature words of the external SDK
versions. The map is a list of its pairs; the only operations on it are `find`
and an `insert` of an absent key.
-/

namespace VRAdmin

open Foundation

structure VrSDK where
  mType : CString
  mVersion : CString
  mVFs : List (CString × UInt64)
deriving DecidableEq

namespace VrSDK

/-- The constructor starts with an empty feature map. -/
def make (type version : CString) : VrSDK := ⟨type, version, []⟩

/-- A null `v` is refused with -1, a present key with 1. -/
def addExternalSDKItem (sdk : VrSDK) (v : Option CString) (f : UInt64) : VrSDK × Int :=
  match v with
  | none => (sdk, -1)
  | some v =>
      if (sdk.mVFs.lookup v).isSome then (sdk, 1)
      else ({ sdk with mVFs := sdk.mVFs ++ [(v, f)] }, 0)

/-- The query is cut at its first `'.'`; an unknown version has the features 0. -/
def getFeature (sdk : VrSDK) (v : Option CString) : UInt64 :=
  match v with
  | none => 0
  | some str => (sdk.mVFs.lookup (str.upTo 46)).getD 0

theorem addExternalSDKItem_state (sdk : VrSDK) (v : CString) (f : UInt64) :
    (sdk.addExternalSDKItem (some v) f).1 = { sdk with mVFs := insertNew sdk.mVFs (v, f) } := by
  unfold addExternalSDKItem insertNew
  dsimp only
  split <;> rfl

end VrSDK

end VRAdmin
