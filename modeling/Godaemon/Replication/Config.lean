import Mathlib.Algebra.Order.Ring.Int
import Mathlib.Data.Rat.Defs

namespace Godaemon
set_option autoImplicit true

/-- The peer id of a client: the server is peer 1, and ids have 31 bits. -/
structure ClientPeer where
  id : Int
  one_lt : 1 < id
  lt : id < 2 ^ 31
  deriving DecidableEq

instance : Coe ClientPeer Int := ⟨ClientPeer.id⟩

theorem ClientPeer.ne_one (p : ClientPeer) : (p : Int) ≠ 1 := by
  have := p.one_lt
  omega

/-- The smallest client ids. -/
def ClientPeer.two : ClientPeer := ⟨2, by decide, by decide⟩
def ClientPeer.three : ClientPeer := ⟨3, by decide, by decide⟩

inductive Filter where
  | server
  | owner
  | client
  deriving DecidableEq

def Filter.bit : Filter → Nat
  | .server => 1
  | .owner => 2
  | .client => 4

/-- What every replicated field stores. Two configs are the same resource only if their
instance ids agree. -/
structure ReplicationConfigBase where
  instanceId : Nat
  name : String := ""
  sendFilter : Nat := 1
  recvFilter : Nat := 7
  reliable : Bool := true
  deriving DecidableEq

inductive TransferMode where
  | reliable
  | unreliable
  deriving DecidableEq

namespace ReplicationConfigBase

def getSendFilterFlag (c : ReplicationConfigBase) (filter : Filter) : Bool :=
  c.sendFilter &&& filter.bit ≠ 0

def getRecvFilterFlag (c : ReplicationConfigBase) (filter : Filter) : Bool :=
  c.recvFilter &&& filter.bit ≠ 0

def getTransferMode (c : ReplicationConfigBase) : TransferMode :=
  if c.reliable then .reliable else .unreliable

/-- The class that a filter puts a peer in, given the owner of the node. -/
def filterOf (nodeOwner p : Int) : Filter :=
  if p = 1 then .server else if p = nodeOwner then .owner else .client

/-- May this peer write the field of a node that has the given owner? -/
def canTheySend (c : ReplicationConfigBase) (nodeOwner p : Int) : Bool :=
  c.getSendFilterFlag (filterOf nodeOwner p)

/-- May this peer receive the field of a node that has the given owner? -/
def canTheyRecv (c : ReplicationConfigBase) (nodeOwner p : Int) : Bool :=
  c.getRecvFilterFlag (filterOf nodeOwner p)

theorem filterOf_ne_server (hp : p ≠ 1) : filterOf o p ≠ .server := by
  intro h
  rw [filterOf, if_neg hp] at h
  split at h
  · cases h
  · cases h

@[simp] theorem filterOf_server : filterOf o 1 = .server := rfl

end ReplicationConfigBase

structure ReplicationMethodConfig extends ReplicationConfigBase where
  ratelimit : ℚ := 0
  flags : Nat := 0
  deriving DecidableEq

def ReplicationMethodConfig.getCallLocal (c : ReplicationMethodConfig) : Bool :=
  c.flags &&& 2 ≠ 0

inductive Sync where
  | once
  | request
  | smooth
  deriving DecidableEq

structure ReplicationPropertyConfig extends ReplicationConfigBase where
  sync : Sync := .once
  flags : Nat := 0
  deriving DecidableEq

def ReplicationPropertyConfig.getRobns (c : ReplicationPropertyConfig) : Bool :=
  c.flags &&& 2 ≠ 0

def ReplicationPropertyConfig.getAngularLerp (c : ReplicationPropertyConfig) : Bool :=
  c.flags &&& 4 ≠ 0

structure ReplicationSignalConfig extends ReplicationConfigBase where
  flags : Nat := 0
  argCount : Nat := 0
  deriving DecidableEq

end Godaemon
