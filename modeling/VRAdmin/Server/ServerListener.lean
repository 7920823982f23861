import VRAdmin.Foundation.Lives
import VRAdmin.Foundation.Machine
import VRAdmin.Server.ClientConnector

/-! # The select loop

One input of the machine `serverLoop` is what the kernel answers during one turn
of the loop in `ServerListener::run`. A connector is its `mConnID`, since `mDB`
is always the listener's `mXmlData`. Descriptor sets are lists without the limit
`FD_SETSIZE`, which the process's own descriptor limit keeps out of reach.
-/

namespace VRAdmin

open Foundation ClientConnector

inductive SelectResult
  | failed (errno : Int)
  | ready (nfds : Int) (rset : List Int)

/-- The kernel's answers in one turn: `accept` gives the descriptor and the
address length it stores, `io` belongs to the connection under that descriptor. -/
structure Turn where
  select : SelectResult
  accept : Int × UInt32
  io : Int → ConnIo

/-- The members, and the locals of `run` that live across turns. -/
structure ServerListener where
  mWakeupRead : Int
  mWakeupWrite : Int
  mListenFd : Int
  mConnectors : List Int
  mXmlData : XmlDatabase
  len : UInt32
  rQuit : Bool
  quitConns : List Int
  returned : Bool

def eintr : Int := 4

namespace ServerListener

/-- The state in which `run` enters its loop; `len` is not initialized. -/
def start (wakeupRead wakeupWrite listenFd : Int) (db : XmlDatabase) (len : UInt32) :
    ServerListener :=
  ⟨wakeupRead, wakeupWrite, listenFd, [], db, len, false, [], false⟩

/-- The part of `run` before the loop: no SDK, no pipe and no listening socket
each make it return. -/
def setup (db : XmlDatabase) (pipe : Option (Int × Int)) (listenfd listen : Int)
    (len : UInt32) : Option ServerListener :=
  if db.getSDKSCount = 0 then none
  else match pipe with
    | none => none
    | some rwfds => if listen < 0 then none else some (start rwfds.1 rwfds.2 listenfd db len)

def addConnector (s : ServerListener) (confd : Int) : ServerListener × Int :=
  if confd ∈ s.mConnectors then (s, -1)
  else ({ s with mConnectors := s.mConnectors ++ [confd] }, 0)

def delConnector (s : ServerListener) (confd : Int) : ServerListener :=
  { s with mConnectors := s.mConnectors.erase confd }

/-- The set handed to `select` and `maxfd`. -/
def requestSet (s : ServerListener) : List Int × Int :=
  s.mConnectors.foldl
    (fun (rset, maxfd) conn =>
      let (rset, ret) := preSelect conn rset
      (rset, if ret > maxfd then ret else maxfd))
    ([s.mWakeupRead, s.mListenFd],
      if s.mWakeupRead > s.mListenFd then s.mWakeupRead else s.mListenFd)

def acceptClient (s : ServerListener) (answer : Int × UInt32) : ServerListener × List Event :=
  let ev := Event.accept s.mListenFd s.len answer.1
  let s := { s with len := answer.2 }
  if answer.1 > 0 then
    let (s, ret) := s.addConnector answer.1
    (s, [ev, .addConnector answer.1 ret])
  else (s, [ev])

/-- The loop that calls `postSelect` on the given connectors. -/
def serve (rset : List Int) (io : Int → ConnIo) :
    List Int → ServerListener → ServerListener × List Event
  | [], s => (s, [])
  | conn :: rest, s =>
      let (ret, evs) := postSelect conn s.mXmlData rset (io conn)
      let s := if ret = resultQuit then
          { s with quitConns := s.quitConns ++ [conn], rQuit := true }
        else s
      let (s, evs') := serve rset io rest s
      (s, evs ++ evs')

def dropAll : List Int → ServerListener → ServerListener × List Event
  | [], s => (s, [])
  | conn :: rest, s =>
      let (s, evs) := dropAll rest (s.delConnector conn)
      (s, .delConnector conn :: .close conn :: evs)

def reap (s : ServerListener) : ServerListener × List Event :=
  if s.rQuit then
    let (s, evs) := dropAll s.quitConns s
    ({ s with quitConns := [], rQuit := false }, evs)
  else (s, [])

/-- A turn from the accept test on. -/
def serveTurn (s : ServerListener) (t : Turn) (nfds : Int) (rset : List Int) :
    ServerListener × List Event :=
  let (s, evs) := if s.mListenFd ∈ rset then s.acceptClient t.accept else (s, [])
  if s.mListenFd ∈ rset ∧ nfds = 1 then (s, evs)
  else
    let (s, evs') := serve rset t.io s.mConnectors s
    let (s, evs'') := s.reap
    (s, evs ++ evs' ++ evs'')

/-- One turn of the loop. -/
def turn (s : ServerListener) (t : Turn) : ServerListener × List Event :=
  if s.returned then (s, [])
  else
    let (requested, maxfd) := s.requestSet
    let ev := Event.select maxfd requested
    match t.select with
    | .failed errno => (if errno = eintr then s else { s with returned := true }, [ev])
    | .ready nfds rset =>
        let woken := if s.mWakeupRead ∈ rset then [Event.readWakeup s.mWakeupRead] else []
        if s.mWakeupRead ∈ rset ∧ nfds = 1 then (s, ev :: woken)
        else
          let (s, evs) := s.serveTurn t nfds rset
          (s, ev :: woken ++ evs)

end ServerListener

def serverLoop : Machine ServerListener Turn Event := ⟨ServerListener.turn⟩

/-! ## The requested descriptors -/

theorem foldl_preSelect (conns rset : List Int) (maxfd : Int) :
    (conns.foldl (fun (acc : List Int × Int) conn =>
        ((preSelect conn acc.1).1,
          if (preSelect conn acc.1).2 > acc.2 then (preSelect conn acc.1).2 else acc.2))
      (rset, maxfd)).1 = rset ++ conns.filter (0 < ·) := by
  induction conns generalizing rset maxfd with
  | nil => simp
  | cons conn conns ih =>
      rw [List.foldl_cons, ih]
      by_cases hpos : 0 < conn
      · simp [preSelect, hpos]
      · simp [preSelect, hpos]

theorem requestSet_eq (s : ServerListener) :
    s.requestSet.1 = [s.mWakeupRead, s.mListenFd] ++ s.mConnectors.filter (0 < ·) :=
  foldl_preSelect s.mConnectors _ _

/-! ## The connections in the event log -/

inductive ConnAct
  | read (result : ReadResult)
  | wrote (buf : Bytes) (taken : Option Nat)
deriving DecidableEq

/-- What an event means for the connection under its descriptor. -/
def Event.named : Event → Option (NameEvent Int ConnAct)
  | .accept _ _ confd => if confd > 0 then some (.opens confd) else none
  | .read fd result => some (.acts fd (.read result))
  | .write fd buf taken => some (.acts fd (.wrote buf taken))
  | .close fd => some (.closes fd)
  | _ => none

def history (log : List Event) : List (NameEvent Int ConnAct) := log.filterMap Event.named

/-- The lives of the accepted connections, a descriptor's reuses apart. -/
def connections (log : List Event) : List (Life Int ConnAct) := lives (history log)

/-- The descriptors returned by `accept` and not closed since. -/
def openConns (log : List Event) : List Int := openNames (connections log)

theorem history_append (first second : List Event) :
    history (first ++ second) = history first ++ history second :=
  List.filterMap_append

theorem connections_append (log evs : List Event) :
    connections (log ++ evs) = (history evs).foldl extend (connections log) := by
  rw [connections, history_append, lives_append]
  rfl

@[simp] theorem history_nil : history [] = [] := rfl

theorem history_idle {e : Event} (h : e.named = none) (evs : List Event) :
    history (e :: evs) = history evs := by
  simp [history, h]

theorem history_accept {c : Int} (hc : 0 < c) (fd : Int) (len : UInt32) (evs : List Event) :
    history (.accept fd len c :: evs) = .opens c :: history evs := by
  simp [history, Event.named, hc]

@[simp] theorem history_addConnector (c ret : Int) (evs : List Event) :
    history (.addConnector c ret :: evs) = history evs := rfl

@[simp] theorem history_read (c : Int) (r : ReadResult) (evs : List Event) :
    history (.read c r :: evs) = .acts c (.read r) :: history evs := rfl

@[simp] theorem history_write (c : Int) (buf : Bytes) (taken : Option Nat) (evs : List Event) :
    history (.write c buf taken :: evs) = .acts c (.wrote buf taken) :: history evs := rfl

@[simp] theorem history_delConnector (c : Int) (evs : List Event) :
    history (.delConnector c :: evs) = history evs := rfl

@[simp] theorem history_close (c : Int) (evs : List Event) :
    history (.close c :: evs) = .closes c :: history evs := rfl

/-- The promise on `accept`: -1 or a positive descriptor that is not open. -/
def FreshAccept (s : ServerListener) (log : List Event) (t : Turn) : Prop :=
  t.accept.1 = -1 ∨
    0 < t.accept.1 ∧ t.accept.1 ∉ openConns log ∧
      t.accept.1 ∉ [s.mWakeupRead, s.mWakeupWrite, s.mListenFd]

instance (s : ServerListener) (log : List Event) (t : Turn) : Decidable (FreshAccept s log t) :=
  inferInstanceAs (Decidable (_ ∨ _))

end VRAdmin
