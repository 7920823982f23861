import VRAdmin.Binder.IVRNativeService

/-! # Posting events through the binder

`BpVRPostEvent` writes a flag for the presence of the optional string, and
`BnVRPostEvent` puts the text "null" in the place of an absent one. `JVRPostEvent`,
the receiver behind it, calls Java only for a string that is present, so an absent
string is dropped by a local post and becomes an event by a remote one.
-/

namespace VRAdmin

open Foundation

/-- The arguments of `post`; `str` may be null. -/
structure PostArgs where
  what : Int32
  arg1 : Int32
  arg2 : Int32
  str : Option CString
deriving DecidableEq

/-- An implementation of `IVRPostEvent::post`, which passes its state. -/
abbrev Post (S : Type) := S → PostArgs → S × Int32

/-- `POSTEVENT_PACK_NAME`. -/
def postEventDescriptor : Bytes := ascii "com.android.VRAdmin.IVRPostEvent"

def VRACTION_POSTEVENT : UInt32 := FIRST_CALL_TRANSACTION

section Marshalling

variable {S P β : Type}

/-! ## Proxy, stub and receiver -/

namespace BpVRPostEvent

/-- The request parcel. -/
def data (ops : ParcelOps P β) (args : PostArgs) : P :=
  let head := ops.writeInt32 (ops.writeInt32 (ops.writeInt32
    (ops.writeInterfaceToken ops.fresh postEventDescriptor) args.what) args.arg1) args.arg2
  match args.str with
  | some str => ops.writeString8 (ops.writeInt32 head 1) str.bytes
  | none => ops.writeInt32 head 0

def post (ops : ParcelOps P β) (remote : Transact S P) : Post S := fun s args =>
  let (s', status, reply) := remote s VRACTION_POSTEVENT (data ops args)
  if status ≠ 0 then (s', status) else (s', (ops.readInt32 reply).1)

end BpVRPostEvent

namespace BnVRPostEvent

/-- The arguments that a request is decoded to. -/
def decode (ops : ParcelOps P β) (data : P) : PostArgs :=
  let (what, data) := ops.readInt32 data
  let (arg1, data) := ops.readInt32 data
  let (arg2, data) := ops.readInt32 data
  let (bstr, data) := ops.readInt32 data
  ⟨what, arg1, arg2,
    some (if bstr ≠ 0 then CString.ofMem (ops.readString8 data).1 else CString.lit "null")⟩

def onTransact (ops : ParcelOps P β) (bbinder : UInt32 → P → P → UInt32 → Int32 × P)
    (post : Post S) (s : S) (code : UInt32) (data reply : P) (flags : UInt32) : S × Int32 × P :=
  if code = VRACTION_POSTEVENT then
    let (ok, data) := ops.checkInterface data postEventDescriptor
    if ok then
      let (s', ret) := post s (decode ops data)
      (s', 0, ops.writeInt32 reply ret)
    else (s, PERMISSION_DENIED, reply)
  else (s, bbinder code data reply flags)

end BnVRPostEvent

/-- A transaction that reports success is one run of the receiver's `onTransact` on
the carried request, and its reply is carried back. -/
def DeliversPost (ops : ParcelOps P β) (bbinder : UInt32 → P → P → UInt32 → Int32 × P)
    (post : Post S) (remote : Transact S P) : Prop :=
  ∀ s code data, (remote s code data).2.1 = 0 →
    let answer := BnVRPostEvent.onTransact ops bbinder post s code (ops.carry data) ops.fresh 0
    remote s code data = (answer.1, answer.2.1, ops.carry answer.2.2)

/-- An event that `postEventFromNative` is called with; the string is what
`NewStringUTF` makes of the text. -/
structure JavaPost (J : Type) where
  what : Int32
  arg1 : Int32
  arg2 : Int32
  jstr : J
deriving DecidableEq

/-- The state is the list of the calls of `postEventFromNative`. -/
def JVRPostEvent.post {J : Type} (newStringUTF : CString → J) : Post (List (JavaPost J)) :=
  fun calls args =>
    match args.str with
    | some str => (calls ++ [⟨args.what, args.arg1, args.arg2, newStringUTF str⟩], 0)
    | none => (calls, 0)

/-- An implementation with a record of the posts that it receives. -/
def Post.traced (post : Post S) : Post (S × List PostArgs) := fun s args =>
  let (s', ret) := post s.1 args
  ((s', s.2 ++ [args]), ret)

/-- Posts one after the other. -/
def Post.all (post : Post S) (s : S) (events : List PostArgs) : S :=
  events.foldl (fun s args => (post s args).1) s

/-! ## What the receiver of a remote post is called with -/

/-- The arguments as they arrive. -/
def PostArgs.arrived (args : PostArgs) : PostArgs :=
  { args with str := some (args.str.getD (CString.lit "null")) }

theorem PostArgs.arrived_eq_iff (args : PostArgs) : args.arrived = args ↔ args.str ≠ none := by
  obtain ⟨what, arg1, arg2, str⟩ := args
  cases str with
  | none => simp [arrived]
  | some str => simp [arrived]

/-- What the proxy writes behind the interface token. -/
def PostArgs.values (args : PostArgs) : List (ParcelValue β) :=
  [.int32 args.what, .int32 args.arg1, .int32 args.arg2] ++
    match args.str with
    | some str => [.int32 1, .string8 str.bytes]
    | none => [.int32 0]

variable {ops : ParcelOps P β} {Unread : P → List (ParcelValue β) → Prop}

theorem BpVRPostEvent.data_unread (fifo : ops.Fifo Unread) (args : PostArgs) :
    Unread (BpVRPostEvent.data ops args) (.token postEventDescriptor :: args.values) := by
  have htoken := fifo.writeInterfaceToken fifo.fresh postEventDescriptor
  have hhead := fifo.writeInt32 (fifo.writeInt32 (fifo.writeInt32 htoken args.what) args.arg1)
    args.arg2
  obtain ⟨what, arg1, arg2, str⟩ := args
  cases str with
  | none => exact fifo.writeInt32 hhead 0
  | some str => exact fifo.writeString8 (fifo.writeInt32 hhead 1) str.bytes

theorem BnVRPostEvent.decode_spec (fifo : ops.Fifo Unread) (args : PostArgs) {data : P}
    (h : Unread data args.values) : BnVRPostEvent.decode ops data = args.arrived := by
  obtain ⟨what, arg1, arg2, str⟩ := args
  obtain ⟨hwhat, h1⟩ := fifo.readInt32 h
  obtain ⟨harg1, h2⟩ := fifo.readInt32 h1
  obtain ⟨harg2, h3⟩ := fifo.readInt32 h2
  cases str with
  | none =>
      obtain ⟨hflag, -⟩ := fifo.readInt32 h3
      simp only [decode, hwhat, harg1, harg2, hflag]
      rfl
  | some str =>
      obtain ⟨hflag, h4⟩ := fifo.readInt32 h3
      obtain ⟨htext, -⟩ := fifo.readString8 h4
      simp only [decode, hwhat, harg1, harg2, hflag, htext, CString.ofMem_bytes]
      rfl

theorem BnVRPostEvent.onTransact_spec (fifo : ops.Fifo Unread)
    (bbinder : UInt32 → P → P → UInt32 → Int32 × P) (post : Post S) (s : S) (args : PostArgs)
    {data reply : P} (h : Unread data (.token postEventDescriptor :: args.values)) (flags : UInt32) :
    BnVRPostEvent.onTransact ops bbinder post s VRACTION_POSTEVENT data reply flags =
      ((post s args.arrived).1, 0, ops.writeInt32 reply (post s args.arrived).2) := by
  obtain ⟨htoken, hdata⟩ := fifo.checkInterface h postEventDescriptor
  simp only [onTransact, if_true, htoken, decide_true, decode_spec fifo args hdata]

theorem bp_post_delivered (fifo : ops.Fifo Unread)
    {bbinder : UInt32 → P → P → UInt32 → Int32 × P} {post : Post S} {remote : Transact S P}
    (hdel : DeliversPost ops bbinder post remote) {s : S} {args : PostArgs}
    (hok : (remote s VRACTION_POSTEVENT (BpVRPostEvent.data ops args)).2.1 = 0) :
    BpVRPostEvent.post ops remote s args = post s args.arrived := by
  have hdata := fifo.carry (BpVRPostEvent.data_unread fifo args)
  have hanswer := hdel s VRACTION_POSTEVENT _ hok
  rw [BnVRPostEvent.onTransact_spec fifo bbinder post s args hdata 0] at hanswer
  obtain ⟨hret, -⟩ := fifo.readInt32 (fifo.carry (fifo.writeInt32 fifo.fresh (post s args.arrived).2))
  simp only [BpVRPostEvent.post, hanswer, hret]
  rfl

/-! ## Sequences of posts -/

/-- The call of Java that a post makes, if it makes one. -/
def PostArgs.javaPost {J : Type} (newStringUTF : CString → J) (args : PostArgs) :
    Option (JavaPost J) :=
  args.str.map fun str => ⟨args.what, args.arg1, args.arg2, newStringUTF str⟩

theorem JVRPostEvent.all_eq {J : Type} (newStringUTF : CString → J) (calls : List (JavaPost J))
    (events : List PostArgs) :
    Post.all (JVRPostEvent.post newStringUTF) calls events =
      calls ++ events.filterMap (PostArgs.javaPost newStringUTF) := by
  induction events generalizing calls with
  | nil => simp [Post.all]
  | cons args events ih =>
      have hrest := ih (JVRPostEvent.post newStringUTF calls args).1
      unfold Post.all at hrest ⊢
      rw [List.foldl_cons, hrest]
      obtain ⟨what, arg1, arg2, str⟩ := args
      cases str with
      | none => rfl
      | some str => simp [post, PostArgs.javaPost]

theorem all_delivered (fifo : ops.Fifo Unread) {bbinder : UInt32 → P → P → UInt32 → Int32 × P}
    {post : Post S} {remote : Transact S P} (hdel : DeliversPost ops bbinder post remote)
    (hok : ∀ s args, (remote s VRACTION_POSTEVENT (BpVRPostEvent.data ops args)).2.1 = 0) (s : S)
    (events : List PostArgs) :
    Post.all (BpVRPostEvent.post ops remote) s events =
      Post.all post s (events.map PostArgs.arrived) := by
  unfold Post.all
  induction events generalizing s with
  | nil => rfl
  | cons args events ih =>
      rw [List.map_cons, List.foldl_cons, List.foldl_cons,
        bp_post_delivered fifo hdel (hok s args), ih]

/-- As they arrive, all posts call Java; before that, those with a string do. -/
theorem arrived_javaPosts_eq_iff {J : Type} (newStringUTF : CString → J)
    (events : List PostArgs) :
    (events.map PostArgs.arrived).filterMap (PostArgs.javaPost newStringUTF) =
        events.filterMap (PostArgs.javaPost newStringUTF) ↔
      ∀ args ∈ events, args.str ≠ none := by
  constructor
  · intro h args hargs hnull
    have hall : ((events.map PostArgs.arrived).filterMap
        (PostArgs.javaPost newStringUTF)).length = events.length := by
      rw [← List.length_map (f := PostArgs.arrived), List.filterMap_length_eq_length]
      intro a ha
      obtain ⟨b, -, rfl⟩ := List.mem_map.mp ha
      rfl
    rw [h, List.filterMap_length_eq_length] at hall
    have hsome := hall args hargs
    rw [PostArgs.javaPost, hnull] at hsome
    exact nomatch hsome
  · intro hsome
    have hsame : events.map PostArgs.arrived = events.map id :=
      List.map_congr_left fun args hargs => args.arrived_eq_iff.mpr (hsome args hargs)
    rw [hsame, List.map_id]

/-- Where every transaction succeeds, a remote post reaches the receiver with exactly
the given arguments if and only if the string is not null, and a sequence of posts
calls Java as it does locally if and only if no string of it is null. -/
theorem remote_post (fifo : ops.Fifo Unread) (bbinder : UInt32 → P → P → UInt32 → Int32 × P) :
    (∀ (S : Type) (post : Post S) (remote : Transact (S × List PostArgs) P),
      DeliversPost ops bbinder post.traced remote →
      (∀ s args, (remote s VRACTION_POSTEVENT (BpVRPostEvent.data ops args)).2.1 = 0) →
      ∀ s made args,
        (BpVRPostEvent.post ops remote (s, made) args).1.2 = made ++ [args] ↔ args.str ≠ none) ∧
    ∀ (J : Type) (newStringUTF : CString → J) (remote : Transact (List (JavaPost J)) P),
      DeliversPost ops bbinder (JVRPostEvent.post newStringUTF) remote →
      (∀ s args, (remote s VRACTION_POSTEVENT (BpVRPostEvent.data ops args)).2.1 = 0) →
      ∀ calls events,
        Post.all (BpVRPostEvent.post ops remote) calls events =
            Post.all (JVRPostEvent.post newStringUTF) calls events ↔
          ∀ args ∈ events, args.str ≠ none := by
  refine ⟨?_, ?_⟩
  · intro S post remote hdel hok s made args
    rw [bp_post_delivered fifo hdel (hok (s, made) args)]
    show made ++ [args.arrived] = made ++ [args] ↔ args.str ≠ none
    rw [List.append_cancel_left_eq, List.singleton_inj, args.arrived_eq_iff]
  · intro J newStringUTF remote hdel hok calls events
    rw [all_delivered fifo hdel hok, JVRPostEvent.all_eq, JVRPostEvent.all_eq,
      List.append_cancel_left_eq, arrived_javaPosts_eq_iff]

/-- A driver that runs the receiver on every request. -/
def deliverPost (ops : ParcelOps P β) (bbinder : UInt32 → P → P → UInt32 → Int32 × P)
    (post : Post S) : Transact S P := fun s code data =>
  let answer := BnVRPostEvent.onTransact ops bbinder post s code (ops.carry data) ops.fresh 0
  (answer.1, answer.2.1, ops.carry answer.2.2)

theorem deliverPost_status (fifo : ops.Fifo Unread)
    (bbinder : UInt32 → P → P → UInt32 → Int32 × P) (post : Post S) (s : S) (args : PostArgs) :
    (deliverPost ops bbinder post s VRACTION_POSTEVENT (BpVRPostEvent.data ops args)).2.1 = 0 := by
  have hdata := fifo.carry (BpVRPostEvent.data_unread fifo args)
  simp only [deliverPost, BnVRPostEvent.onTransact_spec fifo bbinder post s args hdata]

end Marshalling

/-- The driver of the Java receiver; a Java string is known by its bytes. -/
def javaRemote : Transact (List (JavaPost Bytes)) (List (ParcelValue Unit)) :=
  deliverPost (listParcel Unit) (fun _ _ reply _ => (-74, reply)) (JVRPostEvent.post CString.bytes)

theorem remote_post_two :
    let events : List PostArgs := [⟨1, 2, 3, some (CString.lit "near")⟩, ⟨4, 5, 6, some default⟩]
    Post.all (BpVRPostEvent.post (listParcel Unit) javaRemote) [] events =
      Post.all (JVRPostEvent.post CString.bytes) [] events := by
  intro events
  have hfifo := listParcel_fifo Unit
  refine ((remote_post hfifo (fun _ _ reply _ => (-74, reply))).2 Bytes CString.bytes javaRemote
    (fun _ _ _ _ => rfl) (deliverPost_status hfifo _ _) [] events).mpr (by decide)

theorem remote_post_fails :
    ¬ ∀ events : List PostArgs,
      Post.all (BpVRPostEvent.post (listParcel Unit) javaRemote) [] events =
        Post.all (JVRPostEvent.post CString.bytes) [] events := by
  intro hall
  exact absurd (hall [⟨0, 0, 0, none⟩]) (by decide)

end VRAdmin
