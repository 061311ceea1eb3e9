import Godaemon.Steam.QueuedSenders
import Godaemon.Steam.SendQueue

namespace Godaemon
set_option autoImplicit true

namespace SteamMultiplayerPeer

variable (s : SteamMultiplayerPeer)

/-- The guards of `putPacket` let a packet through. -/
structure PutGuards : Prop where
  active : s.isActive = true
  status : s.connectionStatus = .connected
  target : s.targetPeer = 0 ∨ s.targetPeer.abs ∈ s.peerIdToSteamId
  host : s.activeMode = .client → .server ∈ s.peerIdToSteamId

instance : Decidable s.PutGuards :=
  decidable_of_iff (s.isActive = true ∧ s.connectionStatus = .connected ∧
      (s.targetPeer = 0 ∨ s.targetPeer.abs ∈ s.peerIdToSteamId) ∧
      (s.activeMode = .client → .server ∈ s.peerIdToSteamId))
    ⟨fun ⟨ha, hs, ht, hh⟩ => ⟨ha, hs, ht, hh⟩, fun ⟨ha, hs, ht, hh⟩ => ⟨ha, hs, ht, hh⟩⟩

/-- The connections that the target stands for: all of them, the one of a peer, or the registered
ones but that of a peer. -/
def Denotes (ref : Nat) : Prop :=
  if s.targetPeer = 0 then ref ∈ s.connectionsBySteamId64.values
  else if s.targetPeer.msb then (∃ peer, s.getConnectionByPeer peer = some ref) ∧
    s.getConnectionByPeer s.targetPeer.abs ≠ some ref
  else s.getConnectionByPeer s.targetPeer = some ref

/-- A packet is handed over to the connections that the target stands for, to each of them once, and
no connection is missing. -/
structure Addresses : Prop where
  handed : ∀ buffer raw, s.putPacket buffer raw =
    some (.ok, sendAll (.ofBuffer buffer s.getSteamTransferFlag) raw s.putTargets s)
  once : s.putTargets.Nodup
  targets : ∀ ref, ref ∈ s.putTargets ↔ s.Denotes ref

/-- The lookup of a negative target finds the only connection that the target stands for. -/
def TargetFound : Prop :=
  if s.targetPeer = 0 then s.connectionsBySteamId64.values.Nodup
  else s.targetPeer.msb = true → ∃ ref, s.getConnectionByPeer s.targetPeer = some ref ∧
    s.getConnectionByPeer s.targetPeer.abs ≠ some ref ∧
      ∀ peer other, s.getConnectionByPeer peer = some other →
        s.getConnectionByPeer s.targetPeer.abs = some other ∨ other = ref

/-- The packet has the bytes of the buffer, and its flags say how it is to be transferred. -/
structure Carries (buffer : List UInt8) (packet : SteamPacketPeer) : Prop where
  data : packet.data = buffer
  reliable : packet.isReliable = true ↔ s.transferMode ≠ .unreliable
  noNagle : packet.transferMode &&& sendNoNagle ≠ 0 ↔ s.noNagle = true
  noDelay : packet.transferMode &&& sendNoDelay ≠ 0 ↔ s.noDelay = true

/-- One packet with the bytes of the buffer is sent on each connection that the target stands for,
and on no other. -/
structure Sends (buffer : List UInt8) (raw : Nat → Nat → Bool) (t : SteamMultiplayerPeer)
    (packet : SteamPacketPeer) : Prop where
  carries : s.Carries buffer packet
  once : s.putTargets.Nodup
  targets : ∀ ref, ref ∈ s.putTargets ↔ s.Denotes ref
  queued : ∀ ref, s.Denotes ref → t.heap ref = ((s.heap ref).send packet (raw ref)).2
  others : ∀ ref, ¬ s.Denotes ref → t.heap ref = s.heap ref
  sent : t.sent = s.sent ++ s.putTargets.flatMap (fun ref =>
    ((s.heap ref).send packet (raw ref)).1.map (fun p => ((s.heap ref).handle, p)))

/-- The buffer is sent if no error is reported, and an error is reported if it is too large. -/
def SendsOrFails (buffer : List UInt8) : Prop :=
  ∀ raw, ∃ error t, s.putPacket buffer raw = some (error, t) ∧
    (error = .ok → ∃ packet, s.Sends buffer raw t packet) ∧
    (maxSteamPacketSize < buffer.length → error ≠ .ok ∧ t = s)

variable {s} {buffer : List UInt8}

theorem PutGuards.passes (h : s.PutGuards) :
    ¬ (s.targetPeer ≠ 0 ∧ s.targetPeer.abs ∉ s.peerIdToSteamId) ∧
      ¬ (s.activeMode = .client ∧ .server ∉ s.peerIdToSteamId) := by
  apply And.intro
  · intro hno
    cases h.target with
    | inl hzero => exact hno.1 hzero
    | inr hmem => exact hno.2 hmem
  · intro hno
    exact hno.2 (h.host hno.1)

theorem PutGuards.putPacket_eq (h : s.PutGuards) (buffer : List UInt8)
    (raw : Nat → Nat → Bool) : s.putPacket buffer raw =
      if s.targetPeer = 0 then some (.ok, sendAll (.ofBuffer buffer s.getSteamTransferFlag) raw
        s.connectionsBySteamId64.values s)
      else (s.getConnectionByPeer s.targetPeer).map (fun ref => (.ok, s.sendOn ref
        ((s.heap ref).send (.ofBuffer buffer s.getSteamTransferFlag) (raw ref)))) := by
  simp only [putPacket, h.active, h.status, if_neg h.passes.1, if_neg h.passes.2, Bool.not_true,
    Bool.false_eq_true, ne_eq, not_true_eq_false, ↓reduceIte]

theorem PutGuards.putTargets_eq (h : s.PutGuards) : s.putTargets =
    if s.targetPeer = 0 then s.connectionsBySteamId64.values
    else (s.getConnectionByPeer s.targetPeer).toList := by
  simp only [putTargets, h.active, h.status, if_neg h.passes.1, if_neg h.passes.2, Bool.not_true,
    Bool.false_eq_true, ne_eq, not_true_eq_false, ↓reduceIte]

theorem PutGuards.handed (h : s.PutGuards)
    (hfound : s.targetPeer = 0 ∨ ∃ ref, s.getConnectionByPeer s.targetPeer = some ref)
    (buffer : List UInt8) (raw : Nat → Nat → Bool) : s.putPacket buffer raw =
      some (.ok, sendAll (.ofBuffer buffer s.getSteamTransferFlag) raw s.putTargets s) := by
  rw [h.putPacket_eq, h.putTargets_eq]
  by_cases hzero : s.targetPeer = 0
  · rw [if_pos hzero, if_pos hzero]
  · obtain ⟨ref, hget⟩ := hfound.resolve_left hzero
    rw [if_neg hzero, if_neg hzero, hget]
    rfl

theorem PutGuards.found (h : s.PutGuards) (hmsb : s.targetPeer.msb = false) :
    s.targetPeer = 0 ∨ ∃ ref, s.getConnectionByPeer s.targetPeer = some ref := by
  cases h.target with
  | inl hzero => exact .inl hzero
  | inr hmem =>
    rw [BitVec.abs, hmsb, if_neg Bool.false_ne_true] at hmem
    exact .inr ((Dict.mem_iff_get? _).1 hmem)

theorem PutGuards.targets (h : s.PutGuards) (hmsb : s.targetPeer.msb = false) (ref : Nat) :
    ref ∈ s.putTargets ↔ s.Denotes ref := by
  rw [h.putTargets_eq, Denotes]
  by_cases hzero : s.targetPeer = 0
  · rw [if_pos hzero, if_pos hzero]
  · rw [if_neg hzero, if_neg hzero, hmsb, if_neg Bool.false_ne_true, Option.mem_toList]

theorem PutGuards.once (h : s.PutGuards) :
    s.putTargets.Nodup ↔ (s.targetPeer = 0 → s.connectionsBySteamId64.values.Nodup) := by
  rw [h.putTargets_eq]
  by_cases hzero : s.targetPeer = 0
  · rw [if_pos hzero]
    exact ⟨fun hnodup _ => hnodup, fun hnodup => hnodup hzero⟩
  · rw [if_neg hzero]
    refine ⟨fun _ h0 => absurd h0 hzero, fun _ => ?_⟩
    cases s.getConnectionByPeer s.targetPeer with
    | none => exact List.nodup_nil
    | some ref => exact List.nodup_singleton ref

/-- Every packet that the guards let through is handed over to the connections that the target
stands for, unless the target leaves a peer out: then its own number, taken for the id of a peer,
has to find the only connection that is meant. -/
theorem addresses_iff (h : s.PutGuards) : s.Addresses ↔ s.TargetFound := by
  have honce := h.once
  rw [TargetFound]
  by_cases hzero : s.targetPeer = 0
  · rw [if_pos hzero]
    have hmsb : s.targetPeer.msb = false := by rw [hzero]; decide
    constructor
    · intro ha
      exact honce.1 ha.once hzero
    · intro hnodup
      exact ⟨h.handed (.inl hzero), honce.2 (fun _ => hnodup), h.targets hmsb⟩
  rw [if_neg hzero]
  have hnodup : s.putTargets.Nodup := honce.2 (fun h0 => absurd h0 hzero)
  cases hmsb : s.targetPeer.msb with
  | false => exact ⟨fun _ hno => absurd hno Bool.false_ne_true,
      fun _ => ⟨h.handed (h.found hmsb), hnodup, h.targets hmsb⟩⟩
  | true =>
    have hmem : ∀ other, other ∈ s.putTargets ↔ s.getConnectionByPeer s.targetPeer = some other :=
      fun other => by rw [h.putTargets_eq, if_neg hzero, Option.mem_toList]
    have hdenotes : ∀ other, s.Denotes other ↔
        (∃ peer, s.getConnectionByPeer peer = some other) ∧
          s.getConnectionByPeer s.targetPeer.abs ≠ some other :=
      fun other => by rw [Denotes, if_neg hzero, if_pos hmsb]
    constructor
    · intro ha _
      have hfound := ha.handed [] (fun _ _ => true)
      rw [h.putPacket_eq, if_neg hzero] at hfound
      obtain ⟨ref, hget, _⟩ := Option.map_eq_some_iff.1 hfound
      have htarget := (hdenotes ref).1 ((ha.targets ref).1 ((hmem ref).2 hget))
      refine ⟨ref, hget, htarget.2, fun peer other hpeer => ?_⟩
      by_cases hother : s.getConnectionByPeer s.targetPeer.abs = some other
      · exact .inl hother
      · have hput := (hmem other).1
          ((ha.targets other).2 ((hdenotes other).2 ⟨⟨peer, hpeer⟩, hother⟩))
        exact .inr (Option.some.inj (hput.symm.trans hget))
    · intro hfound
      obtain ⟨ref, hget, hne, hall⟩ := hfound rfl
      refine ⟨h.handed (.inr ⟨ref, hget⟩), hnodup, fun other => ?_⟩
      rw [hmem, hdenotes]
      constructor
      · intro hother
        have heq := Option.some.inj (hget.symm.trans hother)
        subst heq
        exact ⟨⟨_, hget⟩, hne⟩
      · rintro ⟨⟨peer, hpeer⟩, hother⟩
        rw [(hall peer other hpeer).resolve_left hother]
        exact hget

/-- A host with one client, which has told its peer id, and the target that it has set. -/
def hostWithTarget (target : SteamPeerId) : SteamMultiplayerPeer :=
  Runs.run step (fresh 7)
    [.createHost 1 1, clientConnected 11 100, clientSetup 100 5, .setTargetPeer target]

theorem addresses_iff_client : (hostWithTarget 5).PutGuards ∧
    ((hostWithTarget 5).Addresses ↔ (hostWithTarget 5).TargetFound) := by
  have hguards : (hostWithTarget 5).PutGuards := by decide +kernel
  exact ⟨hguards, addresses_iff hguards⟩

/-- The host leaves out its only client, and looks for the connection of a peer that is not
there. -/
theorem excluded_peer_missing :
    ¬ ∀ events, let s := Runs.run step (fresh 7) events
      s.PutGuards → s.Addresses := by
  intro h
  have hguards : (hostWithTarget (-5)).PutGuards := by decide +kernel
  have hput := (h _ hguards).handed [] (fun _ _ => true)
  have hmissing : (hostWithTarget (-5)).putPacket [] (fun _ _ => true) = none := by
    have hzero : (hostWithTarget (-5)).targetPeer ≠ 0 := by decide +kernel
    have hget :
        (hostWithTarget (-5)).getConnectionByPeer (hostWithTarget (-5)).targetPeer = none := by
      decide +kernel
    rw [hguards.putPacket_eq, if_neg hzero, hget]
    rfl
  rw [hostWithTarget] at hmissing
  rw [hmissing] at hput
  cases hput

theorem sendOn_heap_of_ne {ref other : Nat} {result : List SteamPacketPeer × SteamConnection}
    (h : other ≠ ref) : (s.sendOn ref result).heap other = s.heap other :=
  Function.update_of_ne h _ _

theorem heap_sendAll {packet : SteamPacketPeer} {raw : Nat → Nat → Bool} {refs : List Nat}
    (hnodup : refs.Nodup) (ref : Nat) : (sendAll packet raw refs s).heap ref =
      if ref ∈ refs then ((s.heap ref).send packet (raw ref)).2 else s.heap ref := by
  induction refs generalizing s with
  | nil => rfl
  | cons first refs ih =>
    obtain ⟨hfirst, hrest⟩ := List.nodup_cons.1 hnodup
    rw [sendAll, ih hrest]
    by_cases hmem : ref ∈ refs
    · have hne : ref ≠ first := fun heq => hfirst (heq ▸ hmem)
      rw [if_pos hmem, if_pos (List.mem_cons_of_mem _ hmem), sendOn_heap_of_ne hne]
    · rw [if_neg hmem]
      by_cases heq : ref = first
      · rw [if_pos (heq ▸ List.mem_cons_self), heq]
        exact Function.update_self _ _ _
      · rw [if_neg (by simp [heq, hmem]), sendOn_heap_of_ne heq]

theorem sent_sendAll {packet : SteamPacketPeer} {raw : Nat → Nat → Bool} {refs : List Nat}
    (hnodup : refs.Nodup) : (sendAll packet raw refs s).sent = s.sent ++ refs.flatMap (fun ref =>
      ((s.heap ref).send packet (raw ref)).1.map (fun p => ((s.heap ref).handle, p))) := by
  induction refs generalizing s with
  | nil => exact (List.append_nil _).symm
  | cons first refs ih =>
    obtain ⟨hfirst, hrest⟩ := List.nodup_cons.1 hnodup
    rw [sendAll, ih hrest, List.flatMap_cons]
    have hkept : ∀ ref ∈ refs,
        (s.sendOn first ((s.heap first).send packet (raw first))).heap ref = s.heap ref :=
      fun ref hmem => sendOn_heap_of_ne (fun heq => hfirst (heq ▸ hmem))
    rw [List.flatMap_congr (fun ref hmem => by rw [hkept ref hmem])]
    exact List.append_assoc _ _ _

theorem carries_ofBuffer (h : buffer.length ≤ maxSteamPacketSize) :
    s.Carries buffer (.ofBuffer buffer s.getSteamTransferFlag) := by
  rw [SteamPacketPeer.ofBuffer_of_le h]
  cases hmode : s.transferMode <;> cases hnagle : s.noNagle <;> cases hdelay : s.noDelay <;>
    exact ⟨rfl, by simp [SteamPacketPeer.isReliable, getSteamTransferFlag, hmode, hnagle, hdelay,
      sendReliable, sendNoNagle, sendNoDelay], by simp [getSteamTransferFlag, hmode, hnagle, hdelay,
      sendReliable, sendNoNagle, sendNoDelay], by simp [getSteamTransferFlag, hmode, hnagle, hdelay,
      sendReliable, sendNoNagle, sendNoDelay]⟩

theorem putPacket_refused (h : ¬ s.PutGuards) : ∃ error, error ≠ .ok ∧
    ∀ buffer raw, s.putPacket buffer raw = some (error, s) := by
  cases hactive : s.isActive with
  | false =>
    exact ⟨.unconfigured, SteamError.noConfusion, fun buffer raw => by simp [putPacket, hactive]⟩
  | true =>
    by_cases hstatus : s.connectionStatus = .connected
    · by_cases htarget : s.targetPeer = 0 ∨ s.targetPeer.abs ∈ s.peerIdToSteamId
      · have hhost : s.activeMode = .client ∧ .server ∉ s.peerIdToSteamId := by
          by_contra hno
          exact h ⟨hactive, hstatus, htarget, fun hc => not_not.1 (fun hn => hno ⟨hc, hn⟩)⟩
        have hpass : ¬ (s.targetPeer ≠ 0 ∧ s.targetPeer.abs ∉ s.peerIdToSteamId) := by
          rw [not_and_or, not_not, not_not]
          exact htarget
        refine ⟨.bug, SteamError.noConfusion, fun buffer raw => ?_⟩
        simp only [putPacket, hactive, hstatus, if_neg hpass, if_pos hhost, Bool.not_true,
          Bool.false_eq_true, ne_eq, not_true_eq_false, ↓reduceIte]
      · rw [not_or] at htarget
        refine ⟨.invalidParameter, SteamError.noConfusion, fun buffer raw => ?_⟩
        simp only [putPacket, hactive, hstatus, if_pos htarget, Bool.not_true,
          Bool.false_eq_true, ne_eq, not_true_eq_false, ↓reduceIte]
    · exact ⟨.unconfigured, SteamError.noConfusion, fun buffer raw => by
        simp [putPacket, hactive, hstatus]⟩

/-- What is put is sent as it is or refused, unless it is too large and no guard refuses it: then an
empty packet takes its place. -/
theorem sendsOrFails_iff (buffer : List UInt8) (hmsb : s.targetPeer.msb = false) :
    s.SendsOrFails buffer ↔ (s.PutGuards → buffer.length ≤ maxSteamPacketSize ∧
      (s.targetPeer = 0 → s.connectionsBySteamId64.values.Nodup)) := by
  by_cases h : s.PutGuards
  · have hhanded := h.handed (h.found hmsb) buffer
    constructor
    · intro hput _
      obtain ⟨error, t, heq, hsends, hfails⟩ := hput (fun _ _ => true)
      obtain ⟨rfl, _⟩ := Prod.mk.inj (Option.some.inj ((hhanded _).symm.trans heq))
      obtain ⟨packet, hpacket⟩ := hsends rfl
      exact ⟨Nat.le_of_not_lt (fun hlt => (hfails hlt).1 rfl), h.once.1 hpacket.once⟩
    · intro hcondition raw
      obtain ⟨hlength, hvalues⟩ := hcondition h
      have hnodup := h.once.2 hvalues
      refine ⟨_, _, hhanded raw, fun _ => ⟨_, carries_ofBuffer hlength, hnodup, h.targets hmsb,
        fun ref href => ?_, fun ref href => ?_, sent_sendAll hnodup⟩,
        fun hlt => absurd hlength (Nat.not_le_of_lt hlt)⟩
      · rw [heap_sendAll hnodup, if_pos ((h.targets hmsb ref).2 href)]
      · rw [heap_sendAll hnodup, if_neg (fun hmem => href ((h.targets hmsb ref).1 hmem))]
  · obtain ⟨error, herror, hput⟩ := putPacket_refused h
    exact iff_of_true
      (fun raw => ⟨error, s, hput buffer raw, fun hok => absurd hok herror, fun _ => ⟨herror, rfl⟩⟩)
      (fun hguards => absurd hguards h)

theorem sendsOrFails_iff_client :
    (hostWithTarget 5).SendsOrFails [1, 2] ↔ ((hostWithTarget 5).PutGuards →
      [1, 2].length ≤ maxSteamPacketSize ∧ ((hostWithTarget 5).targetPeer = 0 →
        (hostWithTarget 5).connectionsBySteamId64.values.Nodup)) :=
  sendsOrFails_iff [1, 2] (by decide +kernel)

/-- A buffer that is one byte too large is put, and no error comes back. -/
theorem too_large_reported_ok :
    ¬ ∀ events buffer, let s := Runs.run step (fresh 7) events
      s.targetPeer.msb = false → s.SendsOrFails buffer := by
  intro h
  have hmsb : (hostWithTarget 5).targetPeer.msb = false := by decide +kernel
  have hguards : (hostWithTarget 5).PutGuards := by decide +kernel
  obtain ⟨error, t, heq, _, hfails⟩ :=
    h _ (List.replicate (maxSteamPacketSize + 1) 0) hmsb (fun _ _ => true)
  have hhanded := hguards.handed (hguards.found hmsb) (List.replicate (maxSteamPacketSize + 1) 0)
    (fun _ _ => true)
  rw [hostWithTarget] at hhanded
  obtain ⟨rfl, _⟩ := Prod.mk.inj (Option.some.inj (hhanded.symm.trans heq))
  exact (hfails (by rw [List.length_replicate]; exact Nat.lt_succ_self _)).1 rfl

end SteamMultiplayerPeer

end Godaemon
