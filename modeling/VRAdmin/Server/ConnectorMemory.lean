import VRAdmin.Sdk.ParserMemory
import VRAdmin.Server.Protocol

/-! # The memory of the connectors

The select loop with the blocks behind `std::list<Connector*>`: the nodes of the list and
the `ClientConnector` objects they point to. A connector that quits is only noted while the
loop walks the list, and freed behind it. No node or object is used or freed after it was
freed, whatever the kernel answers, and apart from its memory the loop is `serverLoop`.
-/

namespace VRAdmin

open Foundation ClientConnector

/-- A node of `mConnectors` with the object it points to. -/
structure ConnectorNode (κ : Type) where
  node : κ
  object : κ
  mConnID : Int

/-- `ServerListener` with its list of pointers, and the log of the blocks. -/
structure ListenerHeap (κ : Type) where
  mWakeupRead : Int
  mWakeupWrite : Int
  mListenFd : Int
  mConnectors : List (ConnectorNode κ)
  mXmlData : XmlDatabase
  len : UInt32
  rQuit : Bool
  quitConns : List Int
  returned : Bool
  log : List (NameEvent κ BlockUse)

/-- The loop `if ((*iter)->getConnID() == confd)`: the node where it stops, between those
before and behind it. -/
def ConnectorNode.search {κ : Type} (confd : Int) : List (ConnectorNode κ) →
    Option (List (ConnectorNode κ) × ConnectorNode κ × List (ConnectorNode κ))
  | [] => none
  | n :: rest =>
      if n.mConnID = confd then some ([], n, rest)
      else (search confd rest).map fun (front, found, back) => (n :: front, found, back)

/-- The blocks of connectors, oldest first. -/
def ConnectorNode.blocks {κ : Type} (nodes : List (ConnectorNode κ)) : List κ :=
  nodes.flatMap fun n => [n.object, n.node]

section Model

variable {κ : Type}

namespace ListenerHeap

open ConnectorNode

def start (wakeupRead wakeupWrite listenFd : Int) (db : XmlDatabase) (len : UInt32) :
    ListenerHeap κ :=
  ⟨wakeupRead, wakeupWrite, listenFd, [], db, len, false, [], false, []⟩

/-- The listener as it is without memory. -/
def listener (h : ListenerHeap κ) : ServerListener :=
  ⟨h.mWakeupRead, h.mWakeupWrite, h.mListenFd, h.mConnectors.map (·.mConnID), h.mXmlData, h.len,
    h.rQuit, h.quitConns, h.returned⟩

def alloc (malloc : Malloc κ) (h : ListenerHeap κ) : ListenerHeap κ × κ :=
  let block := malloc h.log
  ({ h with log := h.log ++ [.opens block] }, block)

def uses (h : ListenerHeap κ) (use : BlockUse) (blocks : List κ) : ListenerHeap κ :=
  { h with log := h.log ++ blocks.map (.acts · use) }

def free (h : ListenerHeap κ) (block : κ) : ListenerHeap κ :=
  { h with log := h.log ++ [.closes block] }

/-- An iterator passes nodes and a method of each object is called. -/
def visits (h : ListenerHeap κ) (nodes : List (ConnectorNode κ)) : ListenerHeap κ :=
  h.uses .reads (nodes.flatMap fun n => [n.node, n.object])

/-- The nodes whose links change when something is put or taken out between two parts. -/
def neighbours (front back : List (ConnectorNode κ)) : List κ :=
  (front.getLast?.toList ++ back.head?.toList).map (·.node)

/-- `new ClientConnector` and `push_back`. -/
def pushBack (malloc : Malloc κ) (h : ListenerHeap κ) (confd : Int) : ListenerHeap κ :=
  let (h, cc) := h.alloc malloc
  let (h, node) := (h.uses .writes [cc]).alloc malloc
  let h := h.uses .writes (node :: neighbours h.mConnectors [])
  { h with mConnectors := h.mConnectors ++ [⟨node, cc, confd⟩] }

def addConnector (malloc : Malloc κ) (h : ListenerHeap κ) (confd : Int) :
    ListenerHeap κ × Int :=
  match search confd h.mConnectors with
  | some (front, found, _) => (h.visits (front ++ [found]), -1)
  | none => ((h.visits h.mConnectors).pushBack malloc confd, 0)

/-- `delete *iter`, which reads the object's table of methods, and `erase(iter)`. -/
def unlink (front back : List (ConnectorNode κ)) (found : ConnectorNode κ) (h : ListenerHeap κ) :
    ListenerHeap κ :=
  let h := (h.uses .reads [found.node, found.object]).free found.object
  let h := ((h.uses .reads [found.node]).uses .writes (neighbours front back)).free found.node
  { h with mConnectors := front ++ back }

def delConnector (h : ListenerHeap κ) (confd : Int) : ListenerHeap κ :=
  match search confd h.mConnectors with
  | none => h.visits h.mConnectors
  | some (front, found, back) => (h.visits (front ++ [found])).unlink front back found

def requestSet (h : ListenerHeap κ) : ListenerHeap κ × List Int × Int :=
  (h.visits h.mConnectors,
    h.mConnectors.foldl
      (fun (rset, maxfd) n =>
        let (rset, ret) := preSelect n.mConnID rset
        (rset, if ret > maxfd then ret else maxfd))
      ([h.mWakeupRead, h.mListenFd],
        if h.mWakeupRead > h.mListenFd then h.mWakeupRead else h.mListenFd))

def acceptClient (malloc : Malloc κ) (h : ListenerHeap κ) (answer : Int × UInt32) :
    ListenerHeap κ × List Event :=
  let ev := Event.accept h.mListenFd h.len answer.1
  let h := { h with len := answer.2 }
  if answer.1 > 0 then
    let (h, ret) := h.addConnector malloc answer.1
    (h, [ev, .addConnector answer.1 ret])
  else (h, [ev])

/-- What follows a `postSelect`; `getConnID` is one more call on a connector that quits. -/
def noteQuit (n : ConnectorNode κ) (ret : Int) (h : ListenerHeap κ) : ListenerHeap κ :=
  if ret = resultQuit then
    { h.visits [n] with quitConns := h.quitConns ++ [n.mConnID], rQuit := true }
  else h

def serve (rset : List Int) (io : Int → ConnIo) :
    List (ConnectorNode κ) → ListenerHeap κ → ListenerHeap κ × List Event
  | [], h => (h, [])
  | n :: rest, h =>
      let (ret, evs) := postSelect n.mConnID h.mXmlData rset (io n.mConnID)
      let (h, evs') := serve rset io rest ((h.visits [n]).noteQuit n ret)
      (h, evs ++ evs')

def dropAll : List Int → ListenerHeap κ → ListenerHeap κ × List Event
  | [], h => (h, [])
  | conn :: rest, h =>
      let (h, evs) := dropAll rest (h.delConnector conn)
      (h, .delConnector conn :: .close conn :: evs)

def reap (h : ListenerHeap κ) : ListenerHeap κ × List Event :=
  if h.rQuit then
    let (h, evs) := dropAll h.quitConns h
    ({ h with quitConns := [], rQuit := false }, evs)
  else (h, [])

def serveTurn (malloc : Malloc κ) (h : ListenerHeap κ) (t : Turn) (nfds : Int)
    (rset : List Int) : ListenerHeap κ × List Event :=
  let (h, evs) := if h.mListenFd ∈ rset then h.acceptClient malloc t.accept else (h, [])
  if h.mListenFd ∈ rset ∧ nfds = 1 then (h, evs)
  else
    let (h, evs') := serve rset t.io h.mConnectors h
    let (h, evs'') := h.reap
    (h, evs ++ evs' ++ evs'')

/-- One turn of the loop. -/
def turn (malloc : Malloc κ) (h : ListenerHeap κ) (t : Turn) : ListenerHeap κ × List Event :=
  if h.returned then (h, [])
  else
    let (h, requested, maxfd) := h.requestSet
    let ev := Event.select maxfd requested
    match t.select with
    | .failed errno => (if errno = eintr then h else { h with returned := true }, [ev])
    | .ready nfds rset =>
        let woken := if h.mWakeupRead ∈ rset then [Event.readWakeup h.mWakeupRead] else []
        if h.mWakeupRead ∈ rset ∧ nfds = 1 then (h, ev :: woken)
        else
          let (h, evs) := h.serveTurn malloc t nfds rset
          (h, ev :: woken ++ evs)

end ListenerHeap

/-- `serverLoop` with its memory. -/
def listenerHeap (malloc : Malloc κ) : Machine (ListenerHeap κ) Turn Event :=
  ⟨ListenerHeap.turn malloc⟩

/-! ## The search -/

namespace ConnectorNode

theorem search_none {confd : Int} {nodes : List (ConnectorNode κ)}
    (h : search confd nodes = none) : confd ∉ nodes.map (·.mConnID) := by
  induction nodes with
  | nil => simp
  | cons n rest ih =>
      rw [search] at h
      split at h
      · cases h
      · rename_i hne
        rw [Option.map_eq_none_iff] at h
        rw [List.map_cons, List.mem_cons, not_or]
        exact ⟨fun heq => hne heq.symm, ih h⟩

theorem search_some {confd : Int} {nodes front back : List (ConnectorNode κ)}
    {found : ConnectorNode κ} (h : search confd nodes = some (front, found, back)) :
    nodes = front ++ found :: back ∧ found.mConnID = confd ∧
      confd ∉ front.map (·.mConnID) := by
  induction nodes generalizing front with
  | nil => cases h
  | cons n rest ih =>
      rw [search] at h
      split at h
      · rename_i heq
        cases h
        exact ⟨rfl, heq, List.not_mem_nil⟩
      · rename_i hne
        obtain ⟨⟨before, found', back'⟩, hrest, heq⟩ := Option.map_eq_some_iff.mp h
        cases heq
        obtain ⟨rfl, hid, hbefore⟩ := ih hrest
        refine ⟨rfl, hid, ?_⟩
        rw [List.map_cons, List.mem_cons, not_or]
        exact ⟨fun heq => hne heq.symm, hbefore⟩

theorem search_passes {confd : Int} {nodes front back : List (ConnectorNode κ)}
    {found : ConnectorNode κ} (h : search confd nodes = some (front, found, back)) :
    ∀ n ∈ front ++ [found], n ∈ nodes := by
  intro n hn
  rw [(search_some h).1, List.append_cons]
  exact List.mem_append_left back hn

theorem blocks_append (front back : List (ConnectorNode κ)) :
    blocks (front ++ back) = blocks front ++ blocks back :=
  List.flatMap_append

theorem blocks_cons (n : ConnectorNode κ) (nodes : List (ConnectorNode κ)) :
    blocks (n :: nodes) = n.object :: n.node :: blocks nodes := rfl

theorem blocks_length (nodes : List (ConnectorNode κ)) :
    (blocks nodes).length = 2 * nodes.length := by
  induction nodes with
  | nil => rfl
  | cons n rest ih =>
      rw [blocks_cons, List.length_cons, List.length_cons, List.length_cons, ih]
      omega

theorem mem_blocks {n : ConnectorNode κ} {nodes : List (ConnectorNode κ)} (h : n ∈ nodes) :
    n.node ∈ blocks nodes ∧ n.object ∈ blocks nodes :=
  ⟨List.mem_flatMap.mpr ⟨n, h, by simp⟩, List.mem_flatMap.mpr ⟨n, h, by simp⟩⟩

end ConnectorNode

/-! ## The loop without memory -/

namespace ListenerHeap

open ConnectorNode

theorem pushBack_listener (malloc : Malloc κ) (h : ListenerHeap κ) (confd : Int) :
    (h.pushBack malloc confd).listener =
      { h.listener with mConnectors := h.listener.mConnectors ++ [confd] } := by
  simp [pushBack, listener, alloc, uses]

theorem addConnector_listener (malloc : Malloc κ) (h : ListenerHeap κ) (confd : Int) :
    ((h.addConnector malloc confd).1.listener, (h.addConnector malloc confd).2) =
      h.listener.addConnector confd := by
  unfold addConnector ServerListener.addConnector
  cases hsearch : search confd h.mConnectors with
  | none =>
      have hnew : confd ∉ h.listener.mConnectors := search_none hsearch
      rw [if_neg hnew]
      exact congrArg (·, 0) (pushBack_listener malloc (h.visits h.mConnectors) confd)
  | some split =>
      obtain ⟨front, found, back⟩ := split
      obtain ⟨hnodes, hid, -⟩ := search_some hsearch
      have hmem : confd ∈ h.listener.mConnectors := by
        show confd ∈ h.mConnectors.map (·.mConnID)
        rw [hnodes, ← hid]
        simp
      rw [if_pos hmem]
      rfl

theorem unlink_listener (front back : List (ConnectorNode κ)) (found : ConnectorNode κ)
    (h : ListenerHeap κ) :
    (h.unlink front back found).listener =
      { h.listener with mConnectors := (front ++ back).map (·.mConnID) } := by
  simp [unlink, listener, free, uses]

theorem delConnector_listener (h : ListenerHeap κ) (confd : Int) :
    (h.delConnector confd).listener = h.listener.delConnector confd := by
  unfold delConnector ServerListener.delConnector
  cases hsearch : search confd h.mConnectors with
  | none =>
      have hsame : h.listener.mConnectors.erase confd = h.listener.mConnectors :=
        List.erase_of_not_mem (search_none hsearch)
      rw [hsame]
      rfl
  | some split =>
      obtain ⟨front, found, back⟩ := split
      obtain ⟨hnodes, hid, hfront⟩ := search_some hsearch
      have herase : h.listener.mConnectors.erase confd = (front ++ back).map (·.mConnID) := by
        rw [listener, hnodes, List.map_append, List.map_cons, List.erase_append_right _ hfront, hid,
          List.erase_cons_head, List.map_append]
      rw [herase]
      exact unlink_listener front back found (h.visits (front ++ [found]))

theorem requestSet_listener (h : ListenerHeap κ) :
    (h.requestSet.1.listener, h.requestSet.2) = (h.listener, h.listener.requestSet) := by
  unfold requestSet ServerListener.requestSet
  rw [show h.listener.mConnectors = h.mConnectors.map ConnectorNode.mConnID from rfl,
    List.foldl_map]
  rfl

theorem acceptClient_listener (malloc : Malloc κ) (h : ListenerHeap κ) (answer : Int × UInt32) :
    ((h.acceptClient malloc answer).1.listener, (h.acceptClient malloc answer).2) =
      h.listener.acceptClient answer := by
  unfold acceptClient ServerListener.acceptClient
  by_cases hpos : answer.1 > 0
  · simp only [if_pos hpos]
    have hadd := addConnector_listener malloc { h with len := answer.2 } answer.1
    change _ = ServerListener.addConnector { h.listener with len := answer.2 } answer.1 at hadd
    rw [← hadd]
    rfl
  · simp only [if_neg hpos]
    rfl

theorem noteQuit_listener (n : ConnectorNode κ) (ret : Int) (h : ListenerHeap κ) :
    (h.noteQuit n ret).listener =
      if ret = resultQuit then
        { h.listener with quitConns := h.quitConns ++ [n.mConnID], rQuit := true }
      else h.listener := by
  unfold noteQuit
  split <;> rfl

theorem serve_listener (rset : List Int) (io : Int → ConnIo) (nodes : List (ConnectorNode κ))
    (h : ListenerHeap κ) :
    ((serve rset io nodes h).1.listener, (serve rset io nodes h).2) =
      ServerListener.serve rset io (nodes.map (·.mConnID)) h.listener := by
  induction nodes generalizing h with
  | nil => rfl
  | cons n rest ih =>
      have hrest := ih ((h.visits [n]).noteQuit n
        (postSelect n.mConnID h.mXmlData rset (io n.mConnID)).1)
      rw [noteQuit_listener] at hrest
      rw [List.map_cons, serve, ServerListener.serve]
      exact congrArg (fun r : ServerListener × List Event =>
        (r.1, (postSelect n.mConnID h.mXmlData rset (io n.mConnID)).2 ++ r.2)) hrest

theorem dropAll_listener (quitting : List Int) (h : ListenerHeap κ) :
    ((dropAll quitting h).1.listener, (dropAll quitting h).2) =
      ServerListener.dropAll quitting h.listener := by
  induction quitting generalizing h with
  | nil => rfl
  | cons conn rest ih =>
      rw [dropAll, ServerListener.dropAll, ← delConnector_listener, ← ih]

theorem reap_listener (h : ListenerHeap κ) :
    (h.reap.1.listener, h.reap.2) = h.listener.reap := by
  unfold reap ServerListener.reap
  by_cases hquit : h.rQuit
  · rw [if_pos hquit, if_pos (show h.listener.rQuit from hquit)]
    have hdrop := dropAll_listener h.quitConns h
    change _ = ServerListener.dropAll h.listener.quitConns h.listener at hdrop
    rw [← hdrop]
    rfl
  · rw [if_neg hquit, if_neg (show ¬ h.listener.rQuit from hquit)]

theorem serveTurn_listener (malloc : Malloc κ) (h : ListenerHeap κ) (t : Turn) (nfds : Int)
    (rset : List Int) :
    ((h.serveTurn malloc t nfds rset).1.listener, (h.serveTurn malloc t nfds rset).2) =
      h.listener.serveTurn t nfds rset := by
  have haccept : ∃ h' : ListenerHeap κ, ∃ evs,
      (if h.mListenFd ∈ rset then h.acceptClient malloc t.accept else (h, [])) = (h', evs) ∧
      (if h.mListenFd ∈ rset then h.listener.acceptClient t.accept else (h.listener, [])) =
        (h'.listener, evs) := by
    by_cases hlisten : h.mListenFd ∈ rset
    · rw [if_pos hlisten, if_pos hlisten]
      exact ⟨_, _, rfl, (acceptClient_listener malloc h t.accept).symm⟩
    · rw [if_neg hlisten, if_neg hlisten]
      exact ⟨h, [], rfl, rfl⟩
  obtain ⟨h', evs, hheap, hlistener⟩ := haccept
  unfold serveTurn ServerListener.serveTurn
  rw [show h.listener.mListenFd = h.mListenFd from rfl, hheap, hlistener]
  dsimp only
  by_cases hone : h'.mListenFd ∈ rset ∧ nfds = 1
  · rw [if_pos hone, if_pos (show h'.listener.mListenFd ∈ rset ∧ nfds = 1 from hone)]
  · rw [if_neg hone, if_neg (show ¬ (h'.listener.mListenFd ∈ rset ∧ nfds = 1) from hone)]
    have hserve := serve_listener rset t.io h'.mConnectors h'
    change _ = ServerListener.serve rset t.io h'.listener.mConnectors h'.listener at hserve
    rw [← hserve, ← reap_listener]

theorem turn_listener (malloc : Malloc κ) (h : ListenerHeap κ) (t : Turn) :
    ((h.turn malloc t).1.listener, (h.turn malloc t).2) = h.listener.turn t := by
  unfold turn ServerListener.turn
  by_cases hreturned : h.returned
  · rw [if_pos hreturned, if_pos (show h.listener.returned from hreturned)]
  · rw [if_neg hreturned, if_neg (show ¬ h.listener.returned from hreturned)]
    obtain ⟨hvisits, hset⟩ := Prod.mk.inj (requestSet_listener h)
    dsimp only
    rw [← hset]
    cases t.select with
    | failed errno =>
        dsimp only
        by_cases heintr : errno = eintr
        · rw [if_pos heintr, if_pos heintr, hvisits]
        · rw [if_neg heintr, if_neg heintr]
          rfl
    | ready nfds rset =>
        dsimp only
        by_cases hwoken : h.mWakeupRead ∈ rset ∧ nfds = 1
        · rw [if_pos (show h.requestSet.1.mWakeupRead ∈ rset ∧ nfds = 1 from hwoken),
            if_pos (show h.listener.mWakeupRead ∈ rset ∧ nfds = 1 from hwoken)]
          rfl
        · rw [if_neg (show ¬ (h.requestSet.1.mWakeupRead ∈ rset ∧ nfds = 1) from hwoken),
            if_neg (show ¬ (h.listener.mWakeupRead ∈ rset ∧ nfds = 1) from hwoken)]
          have hserve := serveTurn_listener malloc h.requestSet.1 t nfds rset
          rw [hvisits] at hserve
          rw [← hserve]
          rfl

/-! ## The blocks -/

variable [DecidableEq κ]

/-- In use are the nodes of the list and the objects they point to. -/
def Owned (h : ListenerHeap κ) : Prop := Owns h.log (blocks h.mConnectors)

variable {malloc : Malloc κ} {h : ListenerHeap κ} {names : List κ}
  {front back nodes : List (ConnectorNode κ)} {found : ConnectorNode κ}

theorem uses_owns (how : Owns h.log names) (use : BlockUse) (used : List κ)
    (hsub : ∀ b ∈ used, b ∈ names) : Owns (h.uses use used).log names :=
  how.acts_all use hsub

theorem alloc_owns (hmalloc : Allocates malloc) (how : Owns h.log names) :
    Owns (h.alloc malloc).1.log (names ++ [(h.alloc malloc).2]) :=
  how.opens_fresh hmalloc

theorem visits_owned (how : h.Owned) (hsub : ∀ n ∈ nodes, n ∈ h.mConnectors) :
    (h.visits nodes).Owned := by
  refine uses_owns how .reads _ fun b hb => ?_
  obtain ⟨n, hn, hb⟩ := List.mem_flatMap.mp hb
  obtain ⟨hnode, hobject⟩ := mem_blocks (hsub n hn)
  simp only [List.mem_cons, List.not_mem_nil, or_false] at hb
  rcases hb with rfl | rfl
  · exact hnode
  · exact hobject

omit [DecidableEq κ] in
theorem mem_neighbours {b : κ} (h : b ∈ neighbours front back) :
    b ∈ blocks front ∨ b ∈ blocks back := by
  obtain ⟨n, hn, rfl⟩ := List.mem_map.mp h
  rcases List.mem_append.mp hn with hlast | hfirst
  · exact .inl (mem_blocks (List.mem_of_getLast? (Option.mem_toList.mp hlast))).1
  · exact .inr (mem_blocks (List.mem_of_head? (Option.mem_toList.mp hfirst))).1

theorem pushBack_owned (hmalloc : Allocates malloc) (how : h.Owned) (confd : Int) :
    (h.pushBack malloc confd).Owned := by
  have hobject := alloc_owns hmalloc how
  have hwritten := uses_owns hobject .writes [(h.alloc malloc).2] (by simp)
  have hnode := alloc_owns hmalloc hwritten
  have hlinked := uses_owns hnode .writes
    ((((h.alloc malloc).1.uses .writes [(h.alloc malloc).2]).alloc malloc).2 ::
      neighbours h.mConnectors []) (by
    intro b hb
    rcases List.mem_cons.mp hb with rfl | hb
    · simp
    · rcases mem_neighbours hb with hb | hb
      · simp [hb]
      · cases hb)
  rw [List.append_assoc] at hlinked
  show Owns _ (blocks (h.mConnectors ++ [_]))
  rw [blocks_append]
  exact hlinked

/-- The object is freed first and its node last, and both are read while they exist. -/
theorem unlink_owned (how : Owns h.log (blocks (front ++ found :: back))) :
    (h.unlink front back found).Owned := by
  rw [blocks_append, blocks_cons] at how
  have hread := uses_owns how .reads [found.node, found.object] (by simp)
  have hobject : Owns ((h.uses .reads [found.node, found.object]).free found.object).log
      (blocks front ++ found.node :: blocks back) := hread.closes_between
  have hnode := uses_owns hobject .reads [found.node] (by simp)
  have hlinked := uses_owns hnode .writes (neighbours front back) (by
    intro b hb
    rcases mem_neighbours hb with hb | hb <;> simp [hb])
  show Owns _ (blocks (front ++ back))
  rw [blocks_append]
  exact hlinked.closes_between

theorem addConnector_owned (hmalloc : Allocates malloc) (how : h.Owned) (confd : Int) :
    (h.addConnector malloc confd).1.Owned := by
  unfold addConnector
  cases hsearch : search confd h.mConnectors with
  | none => exact pushBack_owned hmalloc (visits_owned how fun n hn => hn) confd
  | some split =>
      obtain ⟨front, found, back⟩ := split
      exact visits_owned how (search_passes hsearch)

theorem delConnector_owned (how : h.Owned) (confd : Int) : (h.delConnector confd).Owned := by
  unfold delConnector
  cases hsearch : search confd h.mConnectors with
  | none => exact visits_owned how fun n hn => hn
  | some split =>
      obtain ⟨front, found, back⟩ := split
      obtain ⟨hnodes, -⟩ := search_some hsearch
      apply unlink_owned
      rw [← hnodes]
      exact visits_owned how (search_passes hsearch)

theorem acceptClient_owned (hmalloc : Allocates malloc) (how : h.Owned) (answer : Int × UInt32) :
    (h.acceptClient malloc answer).1.Owned := by
  unfold acceptClient
  dsimp only
  split
  · exact addConnector_owned (h := { h with len := answer.2 }) hmalloc how answer.1
  · exact how

theorem noteQuit_owned (how : h.Owned) (hmem : found ∈ h.mConnectors) (ret : Int) :
    (h.noteQuit found ret).Owned := by
  unfold noteQuit
  split
  · exact visits_owned how (by simpa using hmem)
  · exact how

omit [DecidableEq κ] in
theorem noteQuit_mConnectors (h : ListenerHeap κ) (n : ConnectorNode κ) (ret : Int) :
    (h.noteQuit n ret).mConnectors = h.mConnectors := by
  unfold noteQuit
  split <;> rfl

/-- The walk frees nothing, so the iterator stays valid. -/
theorem serve_owned (rset : List Int) (io : Int → ConnIo) (nodes : List (ConnectorNode κ))
    (how : h.Owned) (hsub : ∀ n ∈ nodes, n ∈ h.mConnectors) : (serve rset io nodes h).1.Owned := by
  induction nodes generalizing h with
  | nil => exact how
  | cons n rest ih =>
      have hn : n ∈ h.mConnectors := hsub n List.mem_cons_self
      have hvisit : (h.visits [n]).Owned := visits_owned how (by simpa using hn)
      rw [serve]
      apply ih
      · exact noteQuit_owned hvisit hn _
      · rw [noteQuit_mConnectors]
        exact fun m hm => hsub m (List.mem_cons_of_mem n hm)

theorem dropAll_owned (quitting : List Int) (how : h.Owned) : (dropAll quitting h).1.Owned := by
  induction quitting generalizing h with
  | nil => exact how
  | cons conn rest ih => exact ih (delConnector_owned how conn)

theorem reap_owned (how : h.Owned) : h.reap.1.Owned := by
  unfold reap
  split
  · exact dropAll_owned h.quitConns how
  · exact how

theorem serveTurn_owned (hmalloc : Allocates malloc) (how : h.Owned) (t : Turn) (nfds : Int)
    (rset : List Int) : (h.serveTurn malloc t nfds rset).1.Owned := by
  have haccept : (if h.mListenFd ∈ rset then h.acceptClient malloc t.accept
      else (h, [])).1.Owned := by
    split
    · exact acceptClient_owned hmalloc how t.accept
    · exact how
  unfold serveTurn
  generalize (if h.mListenFd ∈ rset then h.acceptClient malloc t.accept else (h, [])) = accepted
    at haccept ⊢
  dsimp only
  split
  · exact haccept
  · exact reap_owned (serve_owned rset t.io _ haccept fun n hn => hn)

theorem turn_owned (hmalloc : Allocates malloc) (how : h.Owned) (t : Turn) :
    (h.turn malloc t).1.Owned := by
  have hset : h.requestSet.1.Owned := visits_owned how fun n hn => hn
  unfold turn
  dsimp only
  split
  · exact how
  · cases t.select with
    | failed errno =>
        dsimp only
        split
        · exact hset
        · exact hset
    | ready nfds rset =>
        dsimp only
        split
        · exact hset
        · exact serveTurn_owned hmalloc hset t nfds rset

end ListenerHeap

section Run

variable {malloc : Malloc κ}

theorem listenerHeap_run_listener (malloc : Malloc κ) (h : ListenerHeap κ) (turns : List Turn) :
    (((listenerHeap malloc).run h turns).1.listener, ((listenerHeap malloc).run h turns).2) =
      serverLoop.run h.listener turns := by
  induction turns generalizing h with
  | nil => rfl
  | cons t rest ih =>
      have hturn : (((listenerHeap malloc).step h t).1.listener,
          ((listenerHeap malloc).step h t).2) = serverLoop.step h.listener t :=
        ListenerHeap.turn_listener malloc h t
      rw [Machine.run_cons, Machine.run_cons, ← hturn, ← ih]

variable [DecidableEq κ]

theorem listenerHeap_run_owned (hmalloc : Allocates malloc) {h : ListenerHeap κ} (how : h.Owned)
    (turns : List Turn) : ((listenerHeap malloc).run h turns).1.Owned := by
  induction turns generalizing h with
  | nil => exact how
  | cons t rest ih => exact ih (ListenerHeap.turn_owned hmalloc how t)

/-- For every allocator and all turns, whatever the kernel answers: apart from its memory
the loop is `serverLoop`, with the same events; no node and no object is used or freed
after it was freed, and in use are exactly the nodes of the list and their objects. If
`accept` hands out no descriptor twice, these are two blocks for each open connection. -/
theorem connector_memory (hmalloc : Allocates malloc) (wakeupRead wakeupWrite listenFd : Int)
    (db : XmlDatabase) (len : UInt32) (turns : List Turn) :
    let first := ServerListener.start wakeupRead wakeupWrite listenFd db len
    let r := (listenerHeap malloc).run
      (ListenerHeap.start wakeupRead wakeupWrite listenFd db len) turns
    (r.1.listener, r.2) = serverLoop.run first turns ∧
    Tidy r.1.log ∧
    openNames (lives r.1.log) = ConnectorNode.blocks r.1.mConnectors ∧
    (serverLoop.Admits FreshAccept first [] turns →
      (openNames (lives r.1.log)).length = 2 * (openConns r.2).length) := by
  intro first r
  have hlistener : (r.1.listener, r.2) = serverLoop.run first turns :=
    listenerHeap_run_listener malloc _ turns
  have hstart :
      (ListenerHeap.start wakeupRead wakeupWrite listenFd db len : ListenerHeap κ).Owned :=
    Owns.start
  have howned : r.1.Owned := listenerHeap_run_owned hmalloc hstart turns
  refine ⟨hlistener, howned.tidy, howned.exact, fun hfresh => ?_⟩
  have hreach : serverLoop.Reach FreshAccept first (serverLoop.run first turns).1
      ([] ++ (serverLoop.run first turns).2) := Machine.Reach.start.run hfresh
  rw [← hlistener] at hreach
  have hopen : openConns r.2 = r.1.mConnectors.map (·.mConnID) :=
    (reach_tracks hreach).1.run.openConns_eq
  rw [howned.exact, ConnectorNode.blocks_length, hopen, List.length_map]

end Run

end Model

/-- Two clients, the first of which quits while the loop walks over both. -/
theorem connector_memory_quit :
    let io : Int → ConnIo := fun conn =>
      if conn = 7 then ⟨.chunk ⟨[], by decide⟩, none, []⟩ else ⟨.failed, none, []⟩
    let turns : List Turn :=
      [⟨.ready 1 [5], (7, 2), io⟩, ⟨.ready 1 [5], (8, 2), io⟩, ⟨.ready 2 [7, 8], (-1, 2), io⟩]
    let r := (listenerHeap bump).run (ListenerHeap.start 3 4 5 XmlDatabase.empty 0) turns
    openConns r.2 = [8] ∧ (openNames (lives r.1.log)).length = 2 := by
  intro io turns r
  obtain ⟨-, -, -, hcount⟩ := connector_memory bump_allocates 3 4 5 XmlDatabase.empty 0 turns
  have hopen : openConns r.2 = [8] := by decide
  refine ⟨hopen, ?_⟩
  rw [hcount (by decide)]
  show 2 * (openConns r.2).length = 2
  rw [hopen]
  rfl

end VRAdmin
