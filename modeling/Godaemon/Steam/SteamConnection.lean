import Godaemon.Lib.Bytes

namespace Godaemon
set_option autoImplicit true

abbrev SteamId := Nat

/-- A connection handle of Steam. -/
abbrev SteamHandle := Nat

def SteamHandle.invalid : SteamHandle := 0

/-- A peer id, which the code reads both as a signed and as an unsigned number. -/
abbrev SteamPeerId := BitVec 32

/-- The peer id of a connection that has not been set up. -/
def SteamPeerId.unset : SteamPeerId := -1

def SteamPeerId.server : SteamPeerId := 1

def maxSteamPacketSize : Nat := 512 * 1024

def sendNoNagle : Nat := 1

def sendNoDelay : Nat := 4

/-- The bit of Steam's send flags that asks for reliable delivery. -/
def sendReliable : Nat := 8

inductive MultiplayerPeer.TransferMode where
  | unreliable
  | unreliableOrdered
  | reliable
  deriving DecidableEq

/-- The number that stands for a mode, which is not a send flag of Steam. -/
def MultiplayerPeer.TransferMode.toNat : MultiplayerPeer.TransferMode → Nat
  | .unreliable => 0
  | .unreliableOrdered => 1
  | .reliable => 2

structure SteamPacketPeer where
  data : List UInt8
  transferMode : Nat
  deriving DecidableEq

namespace SteamPacketPeer

/-- A buffer that is too large is reported, and leaves the packet empty. -/
def ofBuffer (buffer : List UInt8) (transferMode : Nat) : SteamPacketPeer :=
  if maxSteamPacketSize < buffer.length then ⟨[], sendReliable⟩ else ⟨buffer, transferMode⟩

def isReliable (packet : SteamPacketPeer) : Bool := packet.transferMode &&& sendReliable ≠ 0

end SteamPacketPeer

/-- The first message of a connection tells the sender's peer id. -/
def setupPeerPayload (peerId : SteamPeerId) : List UInt8 := Bytes.encode 4 peerId.toNat

def readSetupPeerPayload (data : List UInt8) : SteamPeerId := BitVec.ofNat 32 (Bytes.decode data)

theorem setupPeerPayload_length (peerId : SteamPeerId) : (setupPeerPayload peerId).length = 4 :=
  Bytes.encode_length 4 peerId.toNat

theorem read_setupPeerPayload (peerId : SteamPeerId) :
    readSetupPeerPayload (setupPeerPayload peerId) = peerId := by
  rw [readSetupPeerPayload, setupPeerPayload, Bytes.decode_encode]
  apply BitVec.eq_of_toNat_eq
  have hlt := peerId.isLt
  rw [BitVec.toNat_ofNat]
  omega

structure SteamConnection where
  steamId : SteamId
  handle : SteamHandle
  peerId : SteamPeerId
  pendingRetryPackets : List SteamPacketPeer

namespace SteamConnection

variable (c : SteamConnection)

/-- A connection that has just been made. -/
def new (steamId : SteamId) (handle : SteamHandle) : SteamConnection :=
  ⟨steamId, handle, .unset, []⟩

/-- Offer the queued packets to Steam, which answers the raw sends in turn: what it took, and what
stays queued. A packet that is refused is tossed unless it is reliable. -/
def sendPending (raw : Nat → Bool) :
    List SteamPacketPeer → List SteamPacketPeer × List SteamPacketPeer
  | [] => ([], [])
  | packet :: packets =>
    let rest := sendPending (fun i => raw (i + 1)) packets
    if raw 0 then (packet :: rest.1, rest.2)
    else if packet.isReliable then ([], packet :: packets)
    else rest

def send (packet : SteamPacketPeer) (raw : Nat → Bool) :
    List SteamPacketPeer × SteamConnection :=
  let result := sendPending raw (c.pendingRetryPackets ++ [packet])
  (result.1, { c with
    pendingRetryPackets := result.2 })

/-- The setup message is sent with the number of a transfer mode as Steam's flags. -/
def sendPeer (peerId : SteamPeerId) (raw : Nat → Bool) : List SteamPacketPeer × SteamConnection :=
  c.send (.ofBuffer (setupPeerPayload peerId) MultiplayerPeer.TransferMode.reliable.toNat) raw

/-- Close the connection, which Steam may refuse. -/
def close (accepted : Bool) : Bool := c.handle ≠ .invalid && accepted

end SteamConnection

end Godaemon
