import Godaemon.Lib.Bytes
import Godaemon.Services.VisibilityRuns

namespace Godaemon
set_option autoImplicit true

/-- A peer that can own a node: the server or a client. -/
structure PeerId where
  id : Int
  pos : 0 < id
  lt : id < 2 ^ 31

/-- What the ReplicationService sends to a client: nodes to create with their owner at that time
and nodes to free, or a new owner of one node. -/
inductive ClientMessage (N : Type) where
  | updateVisibility (added : List (N × Int)) (removed : List N)
  | setNodeOwner (node : N) (peer : Int)

/-- The nodes that exist on a client, and their owner metadata there. -/
structure ClientView (N : Type) where
  has : N → Bool
  owner : N → Option Int

/-- The server's visibility and owner metadata, and what has been sent to whom. -/
structure OwnershipState (N : Type) where
  service : ReplicationService N
  owner : N → Option PeerId
  mail : List (Int × ClientMessage N)

inductive OwnershipCall (N : Type) where
  | visibility (call : VisibilityCall N)
  | setNodeOwner (node : N) (peer : PeerId)

variable {S N : Type} [DecidableEq N] (T : ServerTree S N)

/-- An owner as it arrives in four bytes. -/
def ownerWord (owner : Int) : Int := Bytes.residue 4 owner

namespace ClientView

/-- Before any message, a client has its own MultiplayerRoot and services. -/
def start : ClientView N := ⟨T.alwaysVisible, fun _ => none⟩

/-- Process a message. A removal frees the node with everything below it; a created node keeps
the owner it came with as metadata of its own; a change of owner is dropped for id 0. -/
def deliver (v : ClientView N) : ClientMessage N → ClientView N
  | .updateVisibility added removed =>
    { has := fun n => (added.map Prod.fst).contains n ||
        (v.has n && !removed.any (fun r => v.has r && (T.path n).contains r))
      owner := fun n =>
        match Dict.lookup n added with
        | some owner => some owner
        | none => v.owner n }
  | .setNodeOwner node peer =>
    if T.repository.getId node = 0 ∨ v.has node = false then v
    else { v with owner := Function.update v.owner node (some peer) }

end ClientView

namespace OwnershipState

def start (owner : N → Option PeerId) : OwnershipState N := ⟨.start, owner, []⟩

/-- The owner metadata of the server's nodes. -/
def ownerMeta (s : OwnershipState N) (n : N) : Option Int := (s.owner n).map PeerId.id

/-- The owner of a node on the server. -/
def serverOwner (s : OwnershipState N) (n : N) : Int := T.getNodeOwner s.ownerMeta n

/-- What a client holds once all messages to it have been delivered in order. -/
def view (s : OwnershipState N) (p : Int) : ClientView N :=
  ((s.mail.filter (fun m => m.1 = p)).map Prod.snd).foldl (ClientView.deliver T) (.start T)

/-- The owner of a node on a client. -/
def clientOwner (s : OwnershipState N) (p : Int) (n : N) : Int :=
  T.getNodeOwner (s.view T p).owner n

/-- An update as it is sent, with the owners resolved on the server. -/
def attachOwners (s : OwnershipState N) (m : VisibilityUpdate N) : Int × ClientMessage N :=
  (m.peer, .updateVisibility (m.added.map (fun n => (n, ownerWord (s.serverOwner T n)))) m.removed)

/-- Run a call of the visibility part, and send the updates it gives rise to. -/
def callVisibility (s : OwnershipState N) (call : VisibilityCall N) : OwnershipState N :=
  let service := s.service.step T call
  { s with
    service := service
    mail := s.mail ++ (service.sent.drop s.service.sent.length).map (s.attachOwners T) }

/-- Set the owner of a ready registered node, and tell every connected observer. -/
def setNodeOwner (s : OwnershipState N) (node : N) (peer : PeerId) : OwnershipState N :=
  if node ∉ s.service.replicationVisibility then s
  else
    let (observers, service) := s.service.getObservingPeers T node
    { service := service
      owner := Function.update s.owner node (some peer)
      mail := s.mail ++ (observers.filter (fun p => p ∈ s.service.peers)).map
        (fun p => (p, .setNodeOwner node (ownerWord peer.id))) }

def step (s : OwnershipState N) : OwnershipCall N → OwnershipState N
  | .visibility call => s.callVisibility T call
  | .setNodeOwner node peer => s.setNodeOwner T node peer

end OwnershipState

end Godaemon
