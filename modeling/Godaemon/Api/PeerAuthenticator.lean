import Mathlib.Algebra.Order.Ring.Int
import Mathlib.Data.List.Basic
import Godaemon.Lib.Runs

namespace Godaemon
set_option autoImplicit true

/-- A byte array that is made from an array keeps the low byte of each element. -/
def packedByteArray (xs : List Int) : List UInt8 := xs.map UInt8.ofInt

/-- What an authenticator asks of the engine. -/
inductive AuthCall where
  | sendAuth (peer : Int) (data : List UInt8)
  | completeAuth (peer : Int)

/-- The default authenticator reads these of the root it belongs to. -/
structure PeerAuthenticator where
  localPeer : Int
  version : Nat

namespace PeerAuthenticator

variable (a : PeerAuthenticator)

/-- Nothing happens where the source's assertion on the target fails. -/
def sendAuth (data : List UInt8) (peer : Int := 1) : List AuthCall :=
  if peer ≠ a.localPeer then [.sendAuth peer data] else []

def completeAuth (peer : Int := 1) : List AuthCall :=
  if peer ≠ a.localPeer then [.completeAuth peer] else []

def clientStartAuth : List AuthCall :=
  a.sendAuth (packedByteArray [a.localPeer, a.version])

def clientReceiveAuth (data : List UInt8) : List AuthCall :=
  if data = packedByteArray [1, a.version] then a.completeAuth else []

def serverStartAuth (peer : Int) : List AuthCall :=
  a.sendAuth (packedByteArray [1, a.version]) peer

def serverReceiveAuth (peer : Int) (data : List UInt8) : List AuthCall :=
  if data = packedByteArray [peer, a.version] then a.completeAuth peer else []

end PeerAuthenticator

/-- A client and the server it connects to, with the versions they are configured with. -/
structure AuthParties where
  peer : Int
  clientVersion : Nat
  serverVersion : Nat
  notServer : peer ≠ 1

/-- One side of a connection: whether the engine has announced the other peer, the messages on
their way to it, and whether it has completed the authentication of the other peer. -/
structure AuthSide where
  authenticating : Bool
  inbox : List (List UInt8)
  completed : Bool

structure AuthLink where
  client : AuthSide
  server : AuthSide

/-- The engine announces the peer to either side once, and hands it one of the messages on their
way, in any order. -/
inductive AuthEvent where
  | clientAuthenticating
  | serverAuthenticating
  | clientReceives (i : Nat)
  | serverReceives (i : Nat)

namespace AuthSide

def new : AuthSide := ⟨false, [], false⟩

/-- The calls of the peer at the other end, as far as they concern this side. -/
def post (s : AuthSide) (self : Int) : List AuthCall → AuthSide
  | [] => s
  | .sendAuth peer data :: calls =>
    (if peer = self then { s with inbox := s.inbox ++ [data] } else s).post self calls
  | .completeAuth _ :: calls => s.post self calls

/-- The calls of this side, as far as they concern itself. -/
def complete (s : AuthSide) (other : Int) : List AuthCall → AuthSide
  | [] => s
  | .sendAuth _ _ :: calls => s.complete other calls
  | .completeAuth peer :: calls =>
    (if peer = other then { s with completed := true } else s).complete other calls

/-- A message is handed over to a side to which the peer has been announced. -/
def take (s : AuthSide) (i : Nat) : Option (List UInt8 × AuthSide) :=
  if s.authenticating then
    s.inbox[i]?.map fun data => (data, { s with inbox := s.inbox.eraseIdx i })
  else none

/-- What one side has to say is not yet said, on its way to the other, or compared with what the
other expects. -/
inductive Heard (said expected : List UInt8) : Bool → List (List UInt8) → Bool → Prop
  | unsaid : Heard said expected false [] false
  | underway : Heard said expected true [said] false
  | compared : Heard said expected true [] (decide (said = expected))

end AuthSide

namespace AuthParties

variable (w : AuthParties)

def client : PeerAuthenticator := ⟨w.peer, w.clientVersion⟩

def server : PeerAuthenticator := ⟨1, w.serverVersion⟩

end AuthParties

namespace AuthLink

variable (w : AuthParties)

def new : AuthLink := ⟨.new, .new⟩

/-- The calls of the client reach the server, and the other way round. -/
def clientCalls (l : AuthLink) (calls : List AuthCall) : AuthLink :=
  ⟨l.client.complete 1 calls, l.server.post 1 calls⟩

def serverCalls (l : AuthLink) (calls : List AuthCall) : AuthLink :=
  ⟨l.client.post w.peer calls, l.server.complete w.peer calls⟩

def step (l : AuthLink) : AuthEvent → AuthLink
  | .clientAuthenticating =>
    if l.client.authenticating then l
    else { l with client := { l.client with authenticating := true } }.clientCalls
      w.client.clientStartAuth
  | .serverAuthenticating =>
    if l.server.authenticating then l
    else { l with server := { l.server with authenticating := true } }.serverCalls w
      (w.server.serverStartAuth w.peer)
  | .clientReceives i =>
    match l.client.take i with
    | some (data, client) =>
      { l with client := client }.clientCalls (w.client.clientReceiveAuth data)
    | none => l
  | .serverReceives i =>
    match l.server.take i with
    | some (data, server) =>
      { l with server := server }.serverCalls w (w.server.serverReceiveAuth w.peer data)
    | none => l

/-- Both sides have been told of each other, and all messages have been delivered. -/
def Settled (l : AuthLink) : Prop :=
  l.client.authenticating = true ∧ l.server.authenticating = true ∧
    l.client.inbox = [] ∧ l.server.inbox = []

instance (l : AuthLink) : Decidable l.Settled :=
  inferInstanceAs (Decidable (_ ∧ _ ∧ _ ∧ _))

/-- Both sides complete the authentication if and only if the versions are equal. -/
def DecidesVersion (l : AuthLink) : Prop :=
  (l.server.completed = true ↔ w.clientVersion = w.serverVersion) ∧
    (l.client.completed = true ↔ w.clientVersion = w.serverVersion)

/-- Each side hears what the other has to say, and nothing else. -/
structure Exchanges (l : AuthLink) : Prop where
  toServer : AuthSide.Heard (packedByteArray [w.peer, w.clientVersion])
    (packedByteArray [w.peer, w.serverVersion])
    l.client.authenticating l.server.inbox l.server.completed
  toClient : AuthSide.Heard (packedByteArray [1, w.serverVersion])
    (packedByteArray [1, w.clientVersion])
    l.server.authenticating l.client.inbox l.client.completed

end AuthLink

theorem packedByteArray_pair : packedByteArray [p, (v : Nat)] = packedByteArray [p, (w : Nat)] ↔
    v % 256 = w % 256 := by
  simp only [packedByteArray, List.map_cons, List.map_nil, List.cons.injEq, true_and, and_true]
  rw [UInt8.ofInt, UInt8.ofInt, ← UInt8.toNat_inj, UInt8.toNat_ofNat', UInt8.toNat_ofNat']
  omega

namespace AuthSide

variable {s s' : AuthSide} {data said expected : List UInt8} {announced : Bool}

theorem Heard.say (h : Heard said expected announced s.inbox s.completed)
    (hn : ¬ announced = true) : Heard said expected true (s.inbox ++ [said]) s.completed := by
  generalize s.inbox = inbox at *
  generalize s.completed = completed at *
  cases h with
  | unsaid => exact .underway
  | underway => exact absurd rfl hn
  | compared => exact absurd rfl hn

theorem Heard.take (h : Heard said expected announced s.inbox s.completed)
    (ht : s.take i = some (data, s')) : s'.authenticating = s.authenticating ∧
      Heard said expected announced s'.inbox (s'.completed || decide (data = expected)) := by
  unfold AuthSide.take at ht
  split at ht
  · obtain ⟨data', hget, hdata⟩ := Option.map_eq_some_iff.1 ht
    cases hdata
    refine ⟨rfl, ?_⟩
    simp only
    generalize s.inbox = inbox at *
    generalize s.completed = completed at *
    cases h with
    | unsaid => cases hget
    | underway =>
      cases i with
      | zero =>
        cases hget
        exact .compared
      | succ i => cases hget
    | compared => cases hget
  · cases ht

theorem Heard.completed_iff {c : Bool} (h : Heard said expected true [] c) :
    c = true ↔ said = expected := by
  cases h with
  | compared => exact decide_eq_true_iff

end AuthSide

namespace AuthLink

variable {w : AuthParties} {l : AuthLink}

theorem exchanges_new : new.Exchanges w := ⟨.unsaid, .unsaid⟩

theorem clientStart_eq (w : AuthParties) : w.client.clientStartAuth =
    [.sendAuth 1 (packedByteArray [w.peer, w.clientVersion])] := by
  have h : (1 : Int) ≠ w.client.localPeer := w.notServer.symm
  simp only [PeerAuthenticator.clientStartAuth, PeerAuthenticator.sendAuth, if_pos h]
  rfl

theorem serverStart_eq (w : AuthParties) : w.server.serverStartAuth w.peer =
    [.sendAuth w.peer (packedByteArray [1, w.serverVersion])] := by
  have h : w.peer ≠ w.server.localPeer := w.notServer
  simp only [PeerAuthenticator.serverStartAuth, PeerAuthenticator.sendAuth, if_pos h]
  rfl

theorem clientReceive_eq (w : AuthParties) (data : List UInt8) : w.client.clientReceiveAuth data =
    if data = packedByteArray [1, w.clientVersion] then [.completeAuth 1] else [] := by
  have h : (1 : Int) ≠ w.client.localPeer := w.notServer.symm
  simp only [PeerAuthenticator.clientReceiveAuth, PeerAuthenticator.completeAuth, if_pos h]
  rfl

theorem serverReceive_eq (w : AuthParties) (data : List UInt8) :
    w.server.serverReceiveAuth w.peer data =
      if data = packedByteArray [w.peer, w.serverVersion] then [.completeAuth w.peer] else [] := by
  have h : w.peer ≠ w.server.localPeer := w.notServer
  simp only [PeerAuthenticator.serverReceiveAuth, PeerAuthenticator.completeAuth, if_pos h]
  rfl

theorem post_complete (s : AuthSide) (p : Prop) [Decidable p] :
    s.post self (if p then [.completeAuth peer] else []) = s := by
  split <;> rfl

theorem complete_complete (s : AuthSide) (p : Prop) [Decidable p] :
    s.complete peer (if p then [.completeAuth peer] else []) =
      { s with completed := s.completed || decide p } := by
  by_cases h : p
  · simp only [h, ↓reduceIte, AuthSide.complete, decide_true, Bool.or_true]
  · simp only [h, ↓reduceIte, AuthSide.complete, decide_false, Bool.or_false]

theorem exchanges_step (h : l.Exchanges w) (e : AuthEvent) : (l.step w e).Exchanges w := by
  cases e with
  | clientAuthenticating =>
    simp only [step]
    by_cases ha : l.client.authenticating = true
    · rw [if_pos ha]
      exact h
    · rw [if_neg ha, clientStart_eq]
      exact ⟨h.toServer.say ha, h.toClient⟩
  | serverAuthenticating =>
    simp only [step]
    by_cases ha : l.server.authenticating = true
    · rw [if_pos ha]
      exact h
    · rw [if_neg ha, serverStart_eq]
      simp only [serverCalls, AuthSide.post, ↓reduceIte]
      exact ⟨h.toServer, h.toClient.say ha⟩
  | clientReceives i =>
    simp only [step]
    cases ht : l.client.take i with
    | none => exact h
    | some taken =>
      obtain ⟨ha, hc⟩ := h.toClient.take ht
      simp only [clientReceive_eq, clientCalls, post_complete, complete_complete]
      have hs := h.toServer
      rw [← ha] at hs
      exact ⟨hs, hc⟩
  | serverReceives i =>
    simp only [step]
    cases ht : l.server.take i with
    | none => exact h
    | some taken =>
      obtain ⟨ha, hs⟩ := h.toServer.take ht
      simp only [serverReceive_eq, serverCalls, post_complete, complete_complete]
      have hc := h.toClient
      rw [← ha] at hc
      exact ⟨hs, hc⟩

theorem exchanges_run (w : AuthParties) (es : List AuthEvent) :
    (Runs.run (step w) new es).Exchanges w := by
  have hstep : ∀ (l : AuthLink) e, l.Exchanges w → (l.step w e).Exchanges w :=
    fun _ e h => exchanges_step h e
  exact (Runs.always_of_step hstep exchanges_new es).last

theorem completed_of_settled (h : l.Exchanges w) (hs : l.Settled) :
    (l.server.completed = true ↔ w.clientVersion % 256 = w.serverVersion % 256) ∧
      (l.client.completed = true ↔ w.clientVersion % 256 = w.serverVersion % 256) := by
  obtain ⟨hc, hv, hinc, hinv⟩ := hs
  have hserver := h.toServer
  have hclient := h.toClient
  rw [hc, hinv] at hserver
  rw [hv, hinc] at hclient
  rw [hserver.completed_iff, hclient.completed_iff, packedByteArray_pair, packedByteArray_pair,
    eq_comm (a := w.serverVersion % 256)]
  exact ⟨Iff.rfl, Iff.rfl⟩

/-- The peers decide whether their versions are equal exactly if these are not different numbers of
one residue modulo 256. -/
theorem decidesVersion_iff (w : AuthParties) (es : List AuthEvent)
    (hs : (Runs.run (step w) new es).Settled) :
    (Runs.run (step w) new es).DecidesVersion w ↔
      (w.clientVersion % 256 = w.serverVersion % 256 → w.clientVersion = w.serverVersion) := by
  obtain ⟨hserver, hclient⟩ := completed_of_settled (exchanges_run w es) hs
  rw [DecidesVersion, hserver, hclient, and_self]
  constructor
  · intro h
    exact h.1
  · intro h
    refine ⟨h, fun he => ?_⟩
    rw [he]

theorem decidesVersion_iff_one_two :
    let w : AuthParties := ⟨2, 1, 2, by decide⟩
    (Runs.run (step w) new [.clientAuthenticating, .serverAuthenticating, .clientReceives 0,
      .serverReceives 0]).DecidesVersion w ↔ (1 % 256 = 2 % 256 → 1 = 2) :=
  decidesVersion_iff ⟨2, 1, 2, by decide⟩ _ (by decide)

/-- Versions 1 and 257 pass for equal. -/
theorem version_257_accepted :
    let w : AuthParties := ⟨2, 257, 1, by decide⟩
    let l := Runs.run (step w) new [.clientAuthenticating, .serverAuthenticating,
      .clientReceives 0, .serverReceives 0]
    l.Settled ∧ ¬ l.DecidesVersion w := by
  refine ⟨by decide, fun h => ?_⟩
  have hv := h.1.1 (by decide)
  cases hv

end AuthLink

end Godaemon
