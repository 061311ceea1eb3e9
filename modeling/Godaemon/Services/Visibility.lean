import Mathlib.Data.List.Sort
import Godaemon.Lib.Dict
import Godaemon.Tree

namespace Godaemon
set_option autoImplicit true

/-- A message that tells a peer which nodes to create and which to free. -/
structure VisibilityUpdate (N : Type) where
  peer : Int
  added : List N
  removed : List N
  deriving DecidableEq

/-- The visibility state of the server's ReplicationService, the peers of its transport, and the
messages it has sent. An entry of `replicationVisibility` holds the default under key 1. -/
structure ReplicationService (N : Type) where
  replicationVisibility : Dict N (Dict Int Bool)
  visibilityCache : Dict N (Dict Int Bool)
  clientCreatedScenes : Dict N Int
  peers : List Int
  sent : List (VisibilityUpdate N)

namespace ReplicationService

variable {S N : Type} [DecidableEq N] (T : ServerTree S N) (s : ReplicationService N)

def start : ReplicationService N := ⟨.empty, .empty, .empty, [], []⟩

/-- What an entry says about a peer: its override, or the default. -/
def value (entry : Dict Int Bool) (peer : Int) : Bool := entry.getD peer (entry.getD 1 false)

def getReplicatedAncestors (node : N) : List N :=
  ((T.path node).takeWhile (fun n => n ≠ T.root)).filter (fun n => n ∈ s.replicationVisibility)

/-- Every registered node from this one up, below the root, is visible for the peer. -/
def effective (node : N) (peer : Int) : Bool :=
  (s.getReplicatedAncestors T node).all
    (fun n => value (s.replicationVisibility.getD n .empty) peer)

def cached (node : N) (peer : Int) : Option Bool := s.visibilityCache.get2? node peer

/-- Is a node absolutely visible for a peer? The answer is cached. -/
def getTrueVisibility (node : N) (peer : Int) : Bool × ReplicationService N :=
  if T.alwaysVisible node then (true, s)
  else
    match s.cached node peer with
    | some visible => (visible, s)
    | none =>
      let visible := s.effective T node peer
      (visible, { s with visibilityCache := s.visibilityCache.set2 node peer visible })

/-- The nodes of a list that are visible for a peer. -/
def visibleAmong (peer : Int) : List N → ReplicationService N → List N × ReplicationService N
  | [], s => ([], s)
  | node :: search, s =>
    let (visible, s) := s.getTrueVisibility T node peer
    let (nodes, s) := visibleAmong peer search s
    (if visible then node :: nodes else nodes, s)

def isAncestorOf (node n : N) : Bool := node ≠ n && node ∈ T.path n

def getReplicatedDescendants (node : N) (includeCache : Bool := false) : List N :=
  let descendants :=
    (if node ∈ s.replicationVisibility then [node] else []) ++
      s.replicationVisibility.keys.filter (fun n => isAncestorOf T node n)
  if includeCache then
    descendants ++ s.visibilityCache.keys.filter
      (fun n => n ∉ descendants && isAncestorOf T node n)
  else descendants

/-- Drop a node's cached answers, for one peer, or for all when the peer is 1. -/
def clearEntry (peer : Int) (cache : Dict N (Dict Int Bool)) (n : N) : Dict N (Dict Int Bool) :=
  if peer = 1 then cache.erase n
  else
    -- the source reads the entry unchecked: each node has just been asked about, so it is there
    match cache.get? n with
    | some entry => if peer ∈ entry then cache.set n (entry.erase peer) else cache
    | none => cache

def clearVisibilityCache (node : N) (peer : Int := 1) : ReplicationService N :=
  if node ∈ s.visibilityCache then
    { s with
      visibilityCache :=
        (s.getReplicatedDescendants T node true).foldl (clearEntry peer) s.visibilityCache }
  else s

def getVisibleNodesForPeer (peer : Int) (root : Option N) : List N × ReplicationService N :=
  match root with
  | none => visibleAmong T peer s.replicationVisibility.keys s
  | some node => visibleAmong T peer (s.getReplicatedDescendants T node) s

/-- The visible nodes at and below a node for each of some peers. -/
def getVisibleNodes (root : N) :
    List Int → ReplicationService N → List (Int × List N) × ReplicationService N
  | [], s => ([], s)
  | peer :: peers, s =>
    let (nodes, s) := s.getVisibleNodesForPeer T peer (some root)
    let (visibleNodes, s) := getVisibleNodes root peers s
    ((peer, nodes) :: visibleNodes, s)

/-- The connected peers other than the server. -/
def clients : List Int := s.peers.filter (fun peer => peer ≠ 1)

def observingAmong (node : N) : List Int → ReplicationService N → List Int × ReplicationService N
  | [], s => ([], s)
  | peer :: peers, s =>
    let (visible, s) := s.getTrueVisibility T node peer
    let (observers, s) := observingAmong node peers s
    (if visible then peer :: observers else observers, s)

/-- The peers that can see a node, the one that created it included. -/
def getObservingPeers (node : N) : List Int × ReplicationService N :=
  let (observers, s) := observingAmong T node s.clients s
  match s.clientCreatedScenes.get? node with
  | some peer => (if peer ∈ observers then observers else observers ++ [peer], s)
  | none => (observers, s)

/-- A node that is neither a scene nor scripted cannot be registered. -/
def canRegister (node : N) : Bool :=
  node ∈ s.replicationVisibility || T.isScene node || (T.script node).isSome

def registerReplication (node : N) : ReplicationService N :=
  if node ∈ s.replicationVisibility then s
  else { s with
    replicationVisibility :=
      s.replicationVisibility.set node ((Dict.empty : Dict Int Bool).set 1 false) }

/-- The repository id of the parent, -1 without one. -/
def parentId (node : N) : Int :=
  match T.parent node with
  | some parent => T.repository.getId parent
  | none => -1

def npSortAscending (a b : N) : Prop := T.repository.getId a ≤ T.repository.getId b

instance : DecidableRel (npSortAscending T) := fun _ _ => inferInstanceAs (Decidable (_ ≤ _))

/-- Send an update to a connected peer. -/
def updateVisibility (peer : Int) (added removed : List N) : ReplicationService N :=
  if peer ∉ s.peers then s
  else
    let added := added.insertionSort (npSortAscending T)
    let removed := removed.insertionSort (npSortAscending T)
    { s with
      sent := s.sent ++ [⟨peer, added.filter (fun node => parentId T node ≠ -1), removed⟩] }

def updatePeerNodes (peer : Int) (old new : List N) : ReplicationService N :=
  let added := new.filter (fun node => node ∉ old)
  let removed := old.filter (fun node => node ∉ new)
  if added = [] ∧ removed = [] then s else s.updateVisibility T peer added removed

def updateNodes : List (Int × List N) → List (Int × List N) → ReplicationService N →
    ReplicationService N
  | (peer, old) :: oldVisibility, (_, new) :: newVisibility, s =>
    updateNodes oldVisibility newVisibility (s.updatePeerNodes T peer old new)
  | _, _, s => s

/-- The body shared by the visibility setters: register the node, look up what some peers see,
edit the node's entry, clear a peer's answers (all for peer 1), look up again and send the
difference. -/
def changeVisibility (node : N) (targets : List Int) (edit : Dict Int Bool → Dict Int Bool)
    (clearPeer : Int) : ReplicationService N :=
  if !s.canRegister T node then s
  else
    let s := s.registerReplication node
    let (oldVisibility, s) := getVisibleNodes T node targets s
    let s := { s with
      replicationVisibility := s.replicationVisibility.set node
        (edit (s.replicationVisibility.getD node .empty)) }
    let s := s.clearVisibilityCache T node clearPeer
    let (newVisibility, s) := getVisibleNodes T node targets s
    updateNodes T oldVisibility newVisibility s

def setVisibility (node : N) (visibility : Bool) : ReplicationService N :=
  s.changeVisibility T node s.clients (fun entry => entry.set 1 visibility) 1

def setPeerVisibility (node : N) (peer : Int) (visibility : Bool) : ReplicationService N :=
  s.changeVisibility T node [peer] (fun entry => entry.set peer visibility) peer

def clearPeerVisibility (node : N) (peer : Int) : ReplicationService N :=
  s.changeVisibility T node [peer] (fun entry => entry.erase peer) peer

/-- A new peer is told about everything it can see. -/
def peerConnected (peer : Int) : ReplicationService N :=
  if peer ∈ s.peers then s
  else
    let s := { s with peers := s.peers ++ [peer] }
    let (nodes, s) := s.getVisibleNodesForPeer T peer none
    s.updateVisibility T peer (nodes.filter (fun node => !T.alwaysVisible node)) []

end ReplicationService

end Godaemon
