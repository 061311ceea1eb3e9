import Godaemon.Lib.RetryQueue
import Godaemon.Lib.Runs
import Godaemon.Steam.SendQueue

namespace Godaemon
set_option autoImplicit true

open RetryQueue Runs

namespace SteamConnection

/-- The loop of `sendPending` as it is written, which asks for as many rounds as it may take. -/
def sendPendingLoop (raw : Nat → Bool) :
    Nat → List SteamPacketPeer → Option (List SteamPacketPeer × List SteamPacketPeer)
  | 0, _ => none
  | _ + 1, [] => some ([], [])
  | rounds + 1, packet :: packets =>
    if raw 0 then
      (sendPendingLoop (fun i => raw (i + 1)) rounds packets).map (fun r => (packet :: r.1, r.2))
    else if packet.isReliable then some ([], packet :: packets)
    else sendPendingLoop (fun i => raw (i + 1)) rounds packets

/-- One round for each queued packet, and one to see that the queue is empty, are enough. -/
theorem sendPendingLoop_eq {rounds : Nat} {packets : List SteamPacketPeer}
    (h : packets.length < rounds) (raw : Nat → Bool) :
    sendPendingLoop raw rounds packets = some (sendPending raw packets) := by
  induction packets generalizing raw rounds with
  | nil =>
    cases rounds with
    | zero => exact absurd h (Nat.not_lt_zero _)
    | succ rounds => rfl
  | cons packet packets ih =>
    cases rounds with
    | zero => exact absurd h (Nat.not_lt_zero _)
    | succ rounds =>
      have hrest := ih (Nat.lt_of_succ_lt_succ h) (fun i => raw (i + 1))
      rw [sendPendingLoop, sendPending, hrest]
      split
      · rfl
      · split
        · rfl
        · rfl

/-- What Steam takes is what it took of the packets that left the queue, and the rest stays. -/
theorem sendPending_eq (raw : Nat → Bool) (packets : List SteamPacketPeer) :
    sendPending raw packets = (taken (popped SteamPacketPeer.isReliable raw packets),
      packets.drop (popped SteamPacketPeer.isReliable raw packets).length) := by
  induction packets generalizing raw with
  | nil => rfl
  | cons packet packets ih =>
    have hrest := ih (fun i => raw (i + 1))
    rw [sendPending, popped, hrest]
    by_cases hraw : raw 0 = true
    · simp [hraw, taken]
    · by_cases hreliable : packet.isReliable = true
      · simp [hraw, hreliable, taken]
      · simp [hraw, hreliable, taken]

end SteamConnection

/-- A connection, with what was submitted to it, what Steam accepted, and the packets that have left
its queue, each with the answer to its own raw send. -/
structure Outbox where
  connection : SteamConnection
  submitted : List SteamPacketPeer
  accepted : List SteamPacketPeer
  settled : List (SteamPacketPeer × Bool)

namespace Outbox

open SteamConnection

def new (steamId : SteamId) (handle : SteamHandle) : Outbox :=
  ⟨.new steamId handle, [], [], []⟩

/-- A packet is sent, and Steam answers the raw sends of this call in turn. -/
def send (o : Outbox) (call : SteamPacketPeer × (Nat → Bool)) : Outbox :=
  let result := o.connection.send call.1 call.2
  ⟨result.2, o.submitted ++ [call.1], o.accepted ++ result.1, o.settled ++
    popped SteamPacketPeer.isReliable call.2 (o.connection.pendingRetryPackets ++ [call.1])⟩

/-- Every packet that was submitted is settled or queued, in order. -/
structure Accounts (o : Outbox) : Prop where
  submitted : o.settled.map Prod.fst ++ o.connection.pendingRetryPackets = o.submitted
  accepted : o.accepted = taken o.settled
  reliable : ∀ packet ok, (packet, ok) ∈ o.settled → packet.isReliable = true → ok = true

variable {o : Outbox}

theorem accounts_new (steamId : SteamId) (handle : SteamHandle) : (new steamId handle).Accounts :=
  ⟨rfl, rfl, fun _ _ h => absurd h List.not_mem_nil⟩

theorem Accounts.send (h : o.Accounts) (call : SteamPacketPeer × (Nat → Bool)) :
    (o.send call).Accounts := by
  obtain ⟨packet, raw⟩ := call
  obtain ⟨queue, hqueue⟩ : ∃ queue, queue = o.connection.pendingRetryPackets ++ [packet] := ⟨_, rfl⟩
  have hsend : o.connection.send packet raw = ((sendPending raw queue).1, { o.connection with
      pendingRetryPackets := (sendPending raw queue).2 }) := by rw [hqueue]; rfl
  have hpop := popped_append_drop SteamPacketPeer.isReliable raw queue
  apply Accounts.mk
  · simp only [Outbox.send, hsend, sendPending_eq, List.map_append, List.append_assoc, ← hqueue,
      hpop]
    rw [hqueue, ← List.append_assoc, h.submitted]
  · simp only [Outbox.send, hsend, sendPending_eq, taken_append, ← hqueue, h.accepted]
  · intro other ok hmem hreliable
    cases List.mem_append.1 hmem with
    | inl hold => exact h.reliable other ok hold hreliable
    | inr hnew => exact taken_of_keep hnew hreliable

theorem accounts_run (h : o.Accounts) (calls : List (SteamPacketPeer × (Nat → Bool))) :
    (run Outbox.send o calls).Accounts := by
  induction calls generalizing o with
  | nil => exact h
  | cons call calls ih => exact ih (h.send call)

theorem submitted_run (calls : List (SteamPacketPeer × (Nat → Bool))) :
    (run Outbox.send o calls).submitted = o.submitted ++ calls.map Prod.fst := by
  induction calls generalizing o with
  | nil => exact (List.append_nil _).symm
  | cons call calls ih =>
    rw [run_cons, ih, List.map_cons]
    exact List.append_assoc _ _ _

theorem Accounts.accepted_sublist (h : o.Accounts) : o.accepted.Sublist o.submitted := by
  rw [h.accepted, ← h.submitted]
  exact (taken_sublist o.settled).trans (List.sublist_append_left _ _)

theorem Accounts.reliable_eq (h : o.Accounts) :
    o.accepted.filter SteamPacketPeer.isReliable ++
      o.connection.pendingRetryPackets.filter SteamPacketPeer.isReliable =
        o.submitted.filter SteamPacketPeer.isReliable := by
  rw [h.accepted, filter_taken h.reliable, ← h.submitted, List.filter_append]

/-- Whatever Steam answers, the packets of a connection leave its queue in the order in which they
were submitted. Each is settled with the answer to its own raw send, the accepted ones are those
with a positive answer, and a reliable one is never settled with a refusal. -/
theorem sends_in_order (steamId : SteamId) (handle : SteamHandle)
    (calls : List (SteamPacketPeer × (Nat → Bool))) :
    let o := run Outbox.send (new steamId handle) calls
    let submitted := calls.map Prod.fst
    o.accepted.Sublist submitted ∧
      o.accepted.filter SteamPacketPeer.isReliable ++
        o.connection.pendingRetryPackets.filter SteamPacketPeer.isReliable =
          submitted.filter SteamPacketPeer.isReliable ∧
      o.settled.map Prod.fst ++ o.connection.pendingRetryPackets = submitted ∧
      o.accepted = taken o.settled ∧
      (∀ packet, (packet, false) ∈ o.settled → packet.isReliable = false) ∧
      ∀ packet raw, ∃ rounds,
        sendPendingLoop raw rounds (o.connection.pendingRetryPackets ++ [packet]) =
          some ((o.connection.send packet raw).1,
            (o.connection.send packet raw).2.pendingRetryPackets) := by
  intro o submitted
  have ho : o.Accounts := accounts_run (accounts_new steamId handle) calls
  have hsubmitted : o.submitted = submitted := submitted_run calls
  refine ⟨hsubmitted ▸ ho.accepted_sublist, hsubmitted ▸ ho.reliable_eq,
    hsubmitted ▸ ho.submitted, ho.accepted, ?_, ?_⟩
  · intro packet hmem
    cases hreliable : packet.isReliable with
    | false => rfl
    | true => exact absurd (ho.reliable packet false hmem hreliable) Bool.false_ne_true
  · intro packet raw
    exact ⟨_, sendPendingLoop_eq (Nat.lt_succ_self _) raw⟩

end Outbox

end Godaemon
