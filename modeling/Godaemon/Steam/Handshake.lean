import Godaemon.Steam.SteamLink

namespace Godaemon
set_option autoImplicit true

namespace SteamLink

open SteamMultiplayerPeer

variable (w : SteamParties) (l : SteamLink)

/-- The handshake loses nothing: what has been put late is appended in order or still to come, the
host is known under its id only, and setup messages are accepted or queued. -/
structure Safe : Prop where
  inOrder : l.got ++ l.undelivered.drop l.early = l.late
  server : l.client.KnowsServer w.hostId
  hostSetup : l.host.Answered w.clientId
  clientSetup : l.client.Introduced w.hostId

/-- Setup messages are accepted whenever they are offered to Steam, what the host puts late comes to
a client that has been set up, no other message sets it up, and no late packet is too large. -/
def Admits : LinkEvent → Prop
  | .clientMade raw => w.hostId ∉ l.client.connectionsBySteamId64 → raw 0 = true
  | .toClient _ => w.hostId ∈ l.client.connectionsBySteamId64 →
    ∀ msg msgs, l.toClient.reliable = msg :: msgs →
      (l.early = 0 → l.client.HasPeer w.hostId) ∧ l.client.SetsServerUp w.hostId msg
  | .looseToClient i _ => ∀ msg, l.toClient.loose[i]? = some msg →
    l.client.SetsServerUp w.hostId msg
  | .toHost raw => ∀ msg msgs, l.toHost.reliable = msg :: msgs →
    l.host.AnswerKept w.clientId msg raw
  | .looseToHost i raw => ∀ msg, l.toHost.loose[i]? = some msg →
    l.host.AnswerKept w.clientId msg raw
  | .hostPut settings buffer raw => (l.host.configure settings).putTargets ≠ [] →
    l.host.HasPeer w.clientId →
      buffer.length ≤ maxSteamPacketSize ∧ l.host.PutKept settings buffer raw
  | .clientPut settings buffer raw => (l.client.configure settings).putTargets ≠ [] →
    l.client.PutKept settings buffer raw
  | _ => True

/-- What holds in every run. Before `peer_connected` every packet is early. -/
structure Linked : Prop where
  host : l.host.Hosting w.clientId
  client : l.client.Joining w.hostId
  bound : l.early ≤ l.undelivered.length
  before : ¬ l.host.HasPeer w.clientId → l.early = l.undelivered.length ∧ l.late = [] ∧ l.got = []
  sized : ∀ msg ∈ l.toClient.reliable, msg.data.length ≤ maxSteamPacketSize

variable {w} {l} {host client : SteamMultiplayerPeer}

theorem Linked.loose (h : l.Linked w) (loose : List SteamMessage) (toHost : SteamChannel) :
    ({ l with
      toClient := { l.toClient with loose := loose }
      toHost := toHost } : SteamLink).Linked w :=
  ⟨h.host, h.client, h.bound, h.before, h.sized⟩

theorem Safe.loose (h : l.Safe w) (loose : List SteamMessage) (toHost : SteamChannel) :
    ({ l with
      toClient := { l.toClient with loose := loose }
      toHost := toHost } : SteamLink).Safe w :=
  ⟨h.inOrder, h.server, h.hostSetup, h.clientSetup⟩

theorem Linked.clientTurn (h : l.Linked w) (hclient : client.Joining w.hostId) :
    (l.clientTurn client).Linked w :=
  ⟨h.host, hclient, h.bound, h.before, h.sized⟩

theorem Safe.clientTurn_iff (h : l.Safe w) : (l.clientTurn client).Safe w ↔
    client.KnowsServer w.hostId ∧ client.Introduced w.hostId :=
  ⟨fun hsafe => ⟨hsafe.server, hsafe.clientSetup⟩,
    fun hclient => ⟨h.inOrder, hclient.1, h.hostSetup, hclient.2⟩⟩

theorem Linked.hostTurn (h : l.Linked w) (hhost : host.Hosting w.clientId)
    (hundelivered : (l.hostTurn host).undelivered = l.undelivered)
    (hpeer : l.host.HasPeer w.clientId → host.HasPeer w.clientId)
    (hsized : ∀ msg ∈ (l.hostTurn host).toClient.reliable, msg.data.length ≤ maxSteamPacketSize) :
    (l.hostTurn host).Linked w := by
  apply Linked.mk
  · exact hhost
  · exact h.client
  · rw [hundelivered]
    exact h.bound
  · intro hnone
    rw [hundelivered]
    exact h.before (fun hold => hnone (hpeer hold))
  · exact hsized

theorem Safe.hostTurn_iff (h : l.Safe w)
    (hundelivered : (l.hostTurn host).undelivered = l.undelivered) :
    (l.hostTurn host).Safe w ↔ host.Answered w.clientId := by
  constructor
  · intro hsafe
    exact hsafe.hostSetup
  · intro hanswered
    have horder : l.got ++ (l.hostTurn host).undelivered.drop l.early = l.late := by
      rw [hundelivered]
      exact h.inOrder
    exact ⟨horder, h.server, hanswered, h.clientSetup⟩

theorem unchanged_spec (h : l.Linked w) (hsafe : l.Safe w) {P : Prop} (hP : P) :
    l.Linked w ∧ (l.Safe w ↔ P) := ⟨h, iff_of_true hsafe hP⟩

theorem hostMade_spec (h : l.Linked w) (hsafe : l.Safe w) :
    (l.hostMade w).Linked w ∧ (l.hostMade w).Safe w := by
  rw [hostMade]
  split
  · exact ⟨h, hsafe⟩
  · next hmem =>
    obtain ⟨hhost, hpeer, hmail⟩ := h.host.connectionMade hmem
      (rfl : w.hostChange.identityRemote = w.clientId)
    constructor
    · apply h.hostTurn hhost (undelivered_of_mail hmail)
      · intro hold
        exact absurd hold.mem hmem
      · rw [hostTurn_of_mail hmail]
        exact h.sized
    · rw [hsafe.hostTurn_iff (undelivered_of_mail hmail)]
      exact fun hnew => absurd hnew hpeer

theorem clientMade_spec (h : l.Linked w) (hsafe : l.Safe w) (raw : Nat → Bool) :
    (l.clientMade w raw).Linked w ∧
      ((l.clientMade w raw).Safe w ↔ l.Admits w (.clientMade raw)) := by
  rw [clientMade]
  split
  · next hmem =>
    apply unchanged_spec h hsafe
    exact fun hne => absurd hmem hne
  · next hmem =>
    obtain ⟨hclient, hpeer, hintroduced⟩ :=
      h.client.connectionMade hmem
      (rfl : (w.clientChange raw).identityRemote = w.hostId)
    constructor
    · exact h.clientTurn hclient
    · rw [hsafe.clientTurn_iff, hintroduced, Admits, imp_iff_right hmem]
      exact and_iff_right (fun hnew => absurd hnew hpeer)

theorem clientReceives_spec (h : l.Linked w) (hsafe : l.Safe w)
    (hmem : w.hostId ∈ l.client.connectionsBySteamId64) (msg : SteamMessage) (raw : Nat → Bool) :
    (l.clientReceives w msg raw).Linked w ∧
      ((l.clientReceives w msg raw).Safe w ↔ l.client.SetsServerUp w.hostId msg) := by
  constructor
  · exact h.clientTurn (h.client.receive hmem msg raw)
  · rw [clientReceives, hsafe.clientTurn_iff,
      h.client.solo.receive_knowsServer_iff hsafe.server msg raw]
    exact and_iff_left (h.client.receive_introduced hsafe.clientSetup msg raw)

theorem hostReceives_spec (h : l.Linked w) (hsafe : l.Safe w) (msg : SteamMessage)
    (raw : Nat → Bool) : (l.hostReceives w msg raw).Linked w ∧
      ((l.hostReceives w msg raw).Safe w ↔ l.host.AnswerKept w.clientId msg raw) := by
  have hhost := h.host.receive msg raw
  have hanswered := h.host.receive_answered_iff hsafe.hostSetup msg raw
  cases hset : l.host.setsUp w.clientId msg with
  | none =>
    obtain ⟨_, hpeer, hmail, _⟩ := h.host.solo.receive_frame hset raw
    constructor
    · apply h.hostTurn hhost (undelivered_of_mail hmail)
      · rw [HasPeer, HasPeer, hpeer]
        exact id
      · rw [hostTurn_of_mail hmail]
        exact h.sized
    · rw [hostReceives, hsafe.hostTurn_iff (undelivered_of_mail hmail), hanswered]
  | some result =>
    obtain ⟨ref, peer⟩ := result
    obtain ⟨hbare, hmail⟩ := h.host.solo.receive_setup hset raw
    rw [if_pos h.host.server] at hmail
    have hundelivered : (l.hostTurn (l.host.receive w.clientId msg raw)).undelivered =
        l.undelivered := by
      rw [undelivered_of_send hmail, SteamPacketPeer.setup_not_reliable]
      exact List.append_nil _
    constructor
    · apply h.hostTurn hhost hundelivered
      · intro _
        exact (hasPeer_congr hbare).2 (h.host.solo.hasPeer_register hset)
      · exact sized_of_send hmail h.sized h.host.sized (SteamPacketPeer.length_ofBuffer _ _)
    · rw [hostReceives, hsafe.hostTurn_iff hundelivered, hanswered]

theorem mem_of_setsUp {s : SteamMultiplayerPeer} {id : SteamId} {msg : SteamMessage} {ref : Nat}
    {peer : SteamPeerId} (h : s.setsUp id msg = some (ref, peer)) :
    id ∈ s.connectionsBySteamId64 := (Dict.mem_iff_get? _).2 ⟨ref, (setsUp_of_set h).1⟩

theorem toHost_spec (h : l.Linked w) (hsafe : l.Safe w) {l' : SteamLink} (toHost : SteamChannel)
    (msg : SteamMessage) (raw : Nat → Bool)
    (hl' : l' = if w.clientId ∉ l.host.connectionsBySteamId64 then l
      else ({ l with
        toHost := toHost } : SteamLink).hostReceives w msg raw) :
    l'.Linked w ∧ (l'.Safe w ↔ l.host.AnswerKept w.clientId msg raw) := by
  rw [hl']
  split
  · next hmem =>
    apply unchanged_spec h hsafe
    intro ref peer hset
    exact absurd (mem_of_setsUp hset) hmem
  · exact hostReceives_spec (h.loose _ toHost) (hsafe.loose _ toHost) msg raw

theorem toHostStep_spec (h : l.Linked w) (hsafe : l.Safe w) (raw : Nat → Bool) :
    (l.toHostStep w raw).Linked w ∧ ((l.toHostStep w raw).Safe w ↔ l.Admits w (.toHost raw)) := by
  rw [toHostStep, Admits]
  cases l.toHost.reliable with
  | nil =>
    apply unchanged_spec h hsafe
    intro msg msgs hmsg
    cases hmsg
  | cons msg msgs =>
    simp only [List.cons.injEq, and_imp, forall_eq', forall_apply_eq_imp_iff]
    exact toHost_spec h hsafe _ msg raw rfl

theorem looseToHost_spec (h : l.Linked w) (hsafe : l.Safe w) (i : Nat) (raw : Nat → Bool) :
    (l.looseToHost w i raw).Linked w ∧
      ((l.looseToHost w i raw).Safe w ↔ l.Admits w (.looseToHost i raw)) := by
  rw [looseToHost, Admits]
  cases l.toHost.loose[i]? with
  | none =>
    apply unchanged_spec h hsafe
    intro msg hmsg
    cases hmsg
  | some msg =>
    simp only [Option.some.injEq, forall_eq']
    exact toHost_spec h hsafe _ msg raw rfl

theorem looseToClient_spec (h : l.Linked w) (hsafe : l.Safe w) (i : Nat) (raw : Nat → Bool) :
    (l.looseToClient w i raw).Linked w ∧
      ((l.looseToClient w i raw).Safe w ↔ l.Admits w (.looseToClient i raw)) := by
  rw [looseToClient, Admits]
  cases l.toClient.loose[i]? with
  | none =>
    apply unchanged_spec h hsafe
    intro msg hmsg
    cases hmsg
  | some msg =>
    simp only [Option.some.injEq, forall_eq']
    split
    · next hmem =>
      apply unchanged_spec h hsafe
      intro ref peer hset
      exact absurd (mem_of_setsUp hset) hmem
    · next hmem =>
      have hlinked := h.loose (l.toClient.loose.eraseIdx i) l.toHost
      have hsafe' := hsafe.loose (l.toClient.loose.eraseIdx i) l.toHost
      exact clientReceives_spec hlinked hsafe' (not_not.1 hmem) msg raw

/-- The next reliable message has been taken for the client. An early one is done with, and a late
one is appended by a client that has been set up. -/
def taken (w : SteamParties) (l : SteamLink) (msg : SteamMessage) (msgs : List SteamMessage) :
    SteamLink :=
  { l with
    toClient := { l.toClient with reliable := msgs }
    early := l.early - 1
    got := if 0 < l.early then l.got
      else l.got ++ if l.client.HasPeer w.hostId then [msg.data] else [] }

theorem toClientStep_eq (h : l.Linked w) {msg : SteamMessage} {msgs : List SteamMessage}
    (hreliable : l.toClient.reliable = msg :: msgs)
    (hmem : w.hostId ∈ l.client.connectionsBySteamId64) (raw : Nat → Bool) :
    l.toClientStep w raw = (l.taken w msg msgs).clientReceives w msg raw := by
  have hsize := h.sized msg (hreliable ▸ List.mem_cons_self)
  simp only [toClientStep, hreliable, if_neg (not_not_intro hmem)]
  split
  · next hearly =>
    simp only [taken, if_pos hearly]
    rfl
  · next hearly =>
    have hzero : l.early = 0 := by omega
    simp only [taken, ← h.client.solo.receive_appends hsize raw, hzero]
    rfl

theorem undelivered_taken {msg : SteamMessage} {msgs : List SteamMessage}
    (hreliable : l.toClient.reliable = msg :: msgs) :
    l.undelivered = msg.data :: (l.taken w msg msgs).undelivered := by
  rw [undelivered, hreliable]
  rfl

theorem Linked.taken (h : l.Linked w) {msg : SteamMessage} {msgs : List SteamMessage}
    (hreliable : l.toClient.reliable = msg :: msgs) : (l.taken w msg msgs).Linked w := by
  have hlength : l.undelivered.length = (l.taken w msg msgs).undelivered.length + 1 := by
    rw [undelivered_taken (w := w) hreliable, List.length_cons]
  have hbound := h.bound
  have hsized := h.sized
  rw [hreliable, List.forall_mem_cons] at hsized
  apply Linked.mk
  · exact h.host
  · exact h.client
  · change l.early - 1 ≤ _
    omega
  · intro hnone
    obtain ⟨hearly, hlate, hgot⟩ := h.before hnone
    have hpos : 0 < l.early := by omega
    refine ⟨?_, hlate, ?_⟩
    · change l.early - 1 = _
      omega
    · rw [SteamLink.taken, if_pos hpos]
      exact hgot
  · exact hsized.2

/-- The order is kept unless a late message comes to a client that has not been set up. -/
theorem Safe.taken_inOrder_iff (h : l.Safe w) {msg : SteamMessage} {msgs : List SteamMessage}
    (hreliable : l.toClient.reliable = msg :: msgs) :
    (l.taken w msg msgs).got ++ (l.taken w msg msgs).undelivered.drop (l.taken w msg msgs).early =
      (l.taken w msg msgs).late ↔ (l.early = 0 → l.client.HasPeer w.hostId) := by
  have horder := h.inOrder
  rw [undelivered_taken (w := w) hreliable] at horder
  obtain ⟨rest, hrest⟩ : ∃ rest, rest = (l.taken w msg msgs).undelivered := ⟨_, rfl⟩
  rw [← hrest] at horder ⊢
  simp only [taken, ← horder]
  cases l.early with
  | succ k =>
    simp only [Nat.zero_lt_succ, ↓reduceIte, List.drop_succ_cons, Nat.add_sub_cancel,
      Nat.succ_ne_zero, false_implies]
  | zero =>
    simp only [Nat.lt_irrefl, ↓reduceIte, List.drop_zero, List.append_assoc,
      List.append_cancel_left_eq, true_implies]
    split
    · next hpeer => exact iff_of_true rfl hpeer
    · next hpeer =>
      apply iff_of_false _ hpeer
      intro heq
      have hlength := congrArg List.length heq
      rw [List.nil_append, List.length_drop, List.length_cons] at hlength
      omega

theorem toClientStep_spec (h : l.Linked w) (hsafe : l.Safe w) (raw : Nat → Bool) :
    (l.toClientStep w raw).Linked w ∧
      ((l.toClientStep w raw).Safe w ↔ l.Admits w (.toClient raw)) := by
  by_cases hmem : w.hostId ∈ l.client.connectionsBySteamId64
  · rw [Admits, imp_iff_right hmem]
    cases hreliable : l.toClient.reliable with
    | nil =>
      have hstep : l.toClientStep w raw = l := by simp only [toClientStep, hreliable]
      rw [hstep]
      apply unchanged_spec h hsafe
      intro msg msgs hmsg
      cases hmsg
    | cons msg msgs =>
      have hlinked := h.taken hreliable
      have horder := hsafe.taken_inOrder_iff hreliable
      simp only [List.cons.injEq, and_imp, forall_eq', forall_apply_eq_imp_iff]
      rw [toClientStep_eq h hreliable hmem, ← horder]
      by_cases hkept : (l.taken w msg msgs).got ++
          (l.taken w msg msgs).undelivered.drop (l.taken w msg msgs).early =
            (l.taken w msg msgs).late
      · have hsafe' : (l.taken w msg msgs).Safe w :=
          ⟨hkept, hsafe.server, hsafe.hostSetup, hsafe.clientSetup⟩
        rw [and_iff_right hkept]
        exact clientReceives_spec hlinked hsafe' hmem msg raw
      · constructor
        · exact hlinked.clientTurn (h.client.receive hmem msg raw)
        · exact iff_of_false (fun hnew => hkept hnew.inOrder) (fun hnew => hkept hnew.1)
  · have hstep : l.toClientStep w raw = l := by
      simp only [toClientStep, if_pos hmem]
      split <;> rfl
    rw [hstep]
    apply unchanged_spec h hsafe
    exact fun hne => absurd hne hmem

/-- What is sent reliably is what is put reliably, unless the buffer is too large. -/
theorem reliable_ofBuffer_iff (buffer : List UInt8) (flags : Nat) :
    ((if (SteamPacketPeer.ofBuffer buffer flags).isReliable then
        [(SteamPacketPeer.ofBuffer buffer flags).data] else []) =
      if flags &&& sendReliable ≠ 0 then [buffer] else []) ↔
        buffer.length ≤ maxSteamPacketSize := by
  by_cases hsize : buffer.length ≤ maxSteamPacketSize
  · rw [SteamPacketPeer.ofBuffer_of_le hsize]
    apply iff_of_true _ hsize
    simp only [SteamPacketPeer.isReliable, decide_eq_true_eq]
  · have hlarge : SteamPacketPeer.ofBuffer buffer flags = ⟨[], sendReliable⟩ :=
      if_pos (Nat.lt_of_not_le hsize)
    apply iff_of_false _ hsize
    rw [hlarge]
    intro heq
    split at heq
    · split at heq
      · rw [← (List.cons.inj heq).1] at hsize
        exact hsize (Nat.zero_le _)
      · cases heq
    · next hreliable => exact hreliable rfl

theorem late_spec (h : l.Linked w) (hsafe : l.Safe w) (hhost : host.Hosting w.clientId)
    (hpeer : host.HasPeer w.clientId) {sent put : List (List UInt8)}
    (hundelivered : (l.hostTurn host).undelivered = l.undelivered ++ sent)
    (hsized : ∀ msg ∈ (l.hostTurn host).toClient.reliable, msg.data.length ≤ maxSteamPacketSize) :
    ({ l.hostTurn host with
      late := l.late ++ put } : SteamLink).Linked w ∧
    (({ l.hostTurn host with
      late := l.late ++ put } : SteamLink).Safe w ↔ sent = put ∧ host.Answered w.clientId) := by
  have hbound : l.early ≤ (l.hostTurn host).undelivered.length := by
    rw [hundelivered, List.length_append]
    exact Nat.le_add_right_of_le h.bound
  have horder : l.got ++ (l.hostTurn host).undelivered.drop l.early = l.late ++ put ↔
      sent = put := by
    rw [hundelivered, List.drop_append_of_le_length h.bound, ← List.append_assoc, hsafe.inOrder,
      List.append_cancel_left_eq]
  constructor
  · exact ⟨hhost, h.client, hbound, fun hnone => absurd hpeer hnone, hsized⟩
  · rw [← horder]
    exact ⟨fun hnew => ⟨hnew.inOrder, hnew.hostSetup⟩,
      fun hnew => ⟨hnew.1, hsafe.server, hnew.2, hsafe.clientSetup⟩⟩

theorem early_spec (h : l.Linked w) (hsafe : l.Safe w) (hhost : host.Hosting w.clientId)
    (hpeer : ¬ host.HasPeer w.clientId) (hold : ¬ l.host.HasPeer w.clientId)
    {sent : List (List UInt8)}
    (hundelivered : (l.hostTurn host).undelivered = l.undelivered ++ sent)
    (hsized : ∀ msg ∈ (l.hostTurn host).toClient.reliable, msg.data.length ≤ maxSteamPacketSize) :
    ({ l.hostTurn host with
      early := l.early + sent.length } : SteamLink).Linked w ∧
    ({ l.hostTurn host with
      early := l.early + sent.length } : SteamLink).Safe w := by
  obtain ⟨hearly, hlate, hgot⟩ := h.before hold
  have hlength : l.early + sent.length = (l.hostTurn host).undelivered.length := by
    rw [hundelivered, List.length_append, hearly]
  constructor
  · exact ⟨hhost, h.client, Nat.le_of_eq hlength, fun _ => ⟨hlength, hlate, hgot⟩, hsized⟩
  · apply Safe.mk
    · change l.got ++ (l.hostTurn host).undelivered.drop (l.early + sent.length) = l.late
      rw [hlength, List.drop_length, hgot, hlate]
      rfl
    · exact hsafe.server
    · exact fun hnew => absurd hnew hpeer
    · exact hsafe.clientSetup

theorem hostPut_spec (h : l.Linked w) (hsafe : l.Safe w) (settings : SendSettings)
    (buffer : List UInt8) (raw : Nat → Nat → Bool) :
    (l.hostPut w settings buffer raw).Linked w ∧
      ((l.hostPut w settings buffer raw).Safe w ↔ l.Admits w (.hostPut settings buffer raw)) := by
  have hmail := h.host.solo.putWith_mail settings buffer raw
  have hhost := h.host.putWith settings buffer raw
  have hanswered := h.host.putWith_answered_iff hsafe.hostSetup settings buffer raw
  have hpeer : (l.host.putWith settings buffer raw).HasPeer w.clientId ↔
      l.host.HasPeer w.clientId := hasPeer_congr (putWith_bare settings buffer raw)
  obtain ⟨host, hput⟩ : ∃ host, host = l.host.putWith settings buffer raw := ⟨_, rfl⟩
  rw [hostPut, Admits]
  rw [← hput] at hmail hhost hanswered hpeer ⊢
  by_cases htargets : (l.host.configure settings).putTargets = []
  · rw [if_pos htargets] at hmail ⊢
    constructor
    · apply h.hostTurn hhost (undelivered_of_mail hmail) hpeer.2
      rw [hostTurn_of_mail hmail]
      exact h.sized
    · rw [hsafe.hostTurn_iff (undelivered_of_mail hmail), hanswered]
      exact iff_of_true (fun hne => absurd htargets hne) (fun hne => absurd htargets hne)
  · rw [if_neg htargets] at hmail ⊢
    rw [imp_iff_right htargets] at hanswered ⊢
    have hundelivered := undelivered_of_send hmail
    have hsized := sized_of_send hmail h.sized h.host.sized (SteamPacketPeer.length_ofBuffer _ _)
    split
    · next hold =>
      rw [imp_iff_right hold] at hanswered ⊢
      rw [← hanswered,
        ← reliable_ofBuffer_iff buffer (l.host.configure settings).getSteamTransferFlag]
      exact late_spec h hsafe hhost (hpeer.2 hold) hundelivered hsized
    · next hnew =>
      obtain ⟨hlinked, hsafe'⟩ :=
        early_spec h hsafe hhost (fun hold => hnew (hpeer.1 hold)) hnew hundelivered hsized
      have hlength : (if (l.host.packetWith settings buffer).isReliable then
          [(l.host.packetWith settings buffer).data] else []).length =
            if (l.host.packetWith settings buffer).isReliable then 1 else 0 := by
        split
        · rfl
        · rfl
      rw [hlength] at hlinked hsafe'
      exact ⟨hlinked, iff_of_true hsafe' (fun hold => absurd hold hnew)⟩

theorem clientPut_spec (h : l.Linked w) (hsafe : l.Safe w) (settings : SendSettings)
    (buffer : List UInt8) (raw : Nat → Nat → Bool) :
    (l.clientPut settings buffer raw).Linked w ∧
      ((l.clientPut settings buffer raw).Safe w ↔
        l.Admits w (.clientPut settings buffer raw)) := by
  have hbare := putWith_bare (s := l.client) settings buffer raw
  constructor
  · exact h.clientTurn (h.client.putWith settings buffer raw)
  · rw [clientPut, hsafe.clientTurn_iff, KnowsServer, hasPeer_congr hbare, peerIdOf_congr hbare,
      h.client.putWith_introduced_iff hsafe.clientSetup]
    exact and_iff_right hsafe.server

theorem start_spec (w : SteamParties) : (start w).Linked w ∧ (start w).Safe w := by
  obtain ⟨l, hl⟩ : ∃ l, l = start w := ⟨_, rfl⟩
  have hhost : l.host.Hosting w.clientId := by
    rw [hl]
    exact Hosting.createHost w.ne.symm w.socket
  have hclient : l.client.Joining w.hostId := by
    rw [hl]
    exact Joining.createClient w.ne w.clientHandle w.clientPeer
  have hnone : w.clientId ∉ l.host.connectionsBySteamId64 ∧
      w.hostId ∉ l.client.connectionsBySteamId64 := by
    rw [hl, start, createHost_fresh, createClient_fresh]
    exact ⟨Dict.not_mem_empty, Dict.not_mem_empty⟩
  have hnothing : l.toClient.reliable = [] ∧ l.early = 0 ∧ l.late = [] ∧ l.got = [] := by
    rw [hl]
    exact ⟨rfl, rfl, rfl, rfl⟩
  obtain ⟨hreliable, hearly, hlate, hgot⟩ := hnothing
  have hundelivered : l.undelivered = [] := by
    rw [undelivered, hreliable, hhost.idle hnone.1]
    rfl
  rw [← hl]
  constructor
  · apply Linked.mk hhost hclient
    · rw [hearly]
      exact Nat.zero_le _
    · rw [hearly, hundelivered]
      exact fun _ => ⟨rfl, hlate, hgot⟩
    · rw [hreliable]
      exact fun msg hmsg => absurd hmsg List.not_mem_nil
  · apply Safe.mk
    · rw [hgot, hundelivered, hlate, List.drop_nil]
      rfl
    · exact fun hpeer => absurd hpeer.mem hnone.2
    · exact fun hpeer => absurd hpeer.mem hnone.1
    · exact fun hmem => absurd hmem hnone.2

theorem step_spec (h : l.Linked w) (hsafe : l.Safe w) (event : LinkEvent) :
    (step w l event).Linked w ∧ ((step w l event).Safe w ↔ l.Admits w event) := by
  cases event with
  | hostMade =>
    obtain ⟨hlinked, hsafe'⟩ := hostMade_spec h hsafe
    exact unchanged_spec hlinked hsafe' trivial
  | clientMade raw => exact clientMade_spec h hsafe raw
  | toClient raw => exact toClientStep_spec h hsafe raw
  | looseToClient i raw => exact looseToClient_spec h hsafe i raw
  | loseToClient i => exact unchanged_spec (h.loose _ l.toHost) (hsafe.loose _ l.toHost) trivial
  | toHost raw => exact toHostStep_spec h hsafe raw
  | looseToHost i raw => exact looseToHost_spec h hsafe i raw
  | loseToHost i => exact unchanged_spec (h.loose _ _) (hsafe.loose _ _) trivial
  | hostPut settings buffer raw => exact hostPut_spec h hsafe settings buffer raw
  | clientPut settings buffer raw => exact clientPut_spec h hsafe settings buffer raw
  | hostGet =>
    have hhost : l.host.getPacket.Hosting w.clientId :=
      ⟨h.host.solo.getPacket, h.host.server, h.host.idle, h.host.once, h.host.sized⟩
    have hsafe' : (step w l .hostGet).Safe w :=
      ⟨hsafe.inOrder, hsafe.server, hsafe.hostSetup, hsafe.clientSetup⟩
    have hlinked : (step w l .hostGet).Linked w := ⟨hhost, h.client, h.bound, h.before, h.sized⟩
    exact unchanged_spec hlinked hsafe' trivial
  | clientGet =>
    have hclient : l.client.getPacket.Joining w.hostId :=
      ⟨h.client.solo.getPacket, h.client.client, h.client.idle, h.client.once⟩
    have hsafe' : (step w l .clientGet).Safe w :=
      ⟨hsafe.inOrder, hsafe.server, hsafe.hostSetup, hsafe.clientSetup⟩
    have hlinked : (step w l .clientGet).Linked w := ⟨h.host, hclient, h.bound, h.before, h.sized⟩
    exact unchanged_spec hlinked hsafe' trivial

/-- The handshake loses nothing exactly in the runs whose events all are admitted. -/
theorem handshake_iff (w : SteamParties) (events : List LinkEvent) :
    Runs.Always (step w) (Safe w) (start w) events ↔
      Runs.Guarded (step w) (Admits w) (start w) events := by
  apply Runs.always_iff_guarded (I := Linked w)
  · intro l event h hsafe _
    exact (step_spec h hsafe event).1
  · intro l event h hsafe
    exact (step_spec h hsafe event).2
  · exact (start_spec w).1
  · exact (start_spec w).2

/-- A host and a client of the user ids 7 and 100. -/
def someParties : SteamParties where
  hostId := 7
  clientId := 100
  ne := by decide
  socket := ⟨1, by decide⟩
  hostHandle := 11
  clientHandle := ⟨21, by decide⟩
  clientPeer := ⟨5, by decide⟩

/-- The host's setup message is overtaken by what it puts next, which the client takes for a setup
message of the wrong size. -/
theorem setup_overtaken : ¬ Runs.Always (step someParties) (Safe someParties) (start someParties)
    [.hostMade, .clientMade (fun _ => true), .looseToHost 0 (fun _ => true),
      .hostPut ⟨0, .reliable, false, false⟩ [1] (fun _ _ => true), .toClient (fun _ => true)] := by
  intro h
  obtain ⟨l, hl⟩ : ∃ l, l = Runs.run (step someParties) (start someParties)
      [.hostMade, .clientMade (fun _ => true), .looseToHost 0 (fun _ => true),
        .hostPut ⟨0, .reliable, false, false⟩ [1] (fun _ _ => true), .toClient (fun _ => true)] :=
    ⟨_, rfl⟩
  have hlast := h.last
  rw [← hl] at hlast
  have hlate : l.late = [[1]] := by
    rw [hl]
    decide +kernel
  have hgot : l.got = [] := by
    rw [hl]
    decide +kernel
  have hundelivered : l.undelivered = [] := by
    rw [hl]
    decide +kernel
  have horder := hlast.inOrder
  rw [hlate, hgot, hundelivered, List.drop_nil] at horder
  cases horder

end SteamLink

end Godaemon
