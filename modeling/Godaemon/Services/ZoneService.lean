import Godaemon.Services.VisibilityRuns
import Godaemon.Services.RpcVisibility

namespace Godaemon
set_option autoImplicit true

/-- Zones are nodes that have a script. -/
abbrev Zone {S N : Type} [DecidableEq N] (T : ServerTree S N) :=
  { zone : N // (T.script zone).isSome = true }

/-- What the server keeps about its peers, in the RPC layer, the ReplicationService and the
ZoneService. -/
structure ZoneServer {S N : Type} [DecidableEq N] (T : ServerTree S N) where
  ratelimits : Ratelimits N
  replication : ReplicationService N
  zones : List (Zone T)
  interest : Zone T → List Int
  queuedForDeletion : List (Zone T)
  /-- The peer whose departure has just been handled. -/
  left : Option Int

/-- What happens to the server over time. -/
inductive ZoneEvent {S N : Type} [DecidableEq N] (T : ServerTree S N) where
  | visibility (call : VisibilityCall N)
  | addZone (zone : Zone T) (scene : N)
  | removeZone (zone : Zone T)
  | addInterest (peer : ClientPeer) (zone : Zone T)
  | removeInterest (peer : ClientPeer) (zone : Zone T)
  | acceptReplication (node : N) (peer : ClientPeer)
  | checkRatelimit (time : ℚ) (peer : ClientPeer) (object : N) (config : ReplicationMethodConfig)
  | frameEnd
  | disconnect (peer : ClientPeer)

namespace ReplicationService

variable {S N : Type} [DecidableEq N] (T : ServerTree S N)

def peerDisconnected (peer : Int) (s : ReplicationService N) : ReplicationService N :=
  { s with
    replicationVisibility := s.replicationVisibility.mapValues (fun _ entry => entry.erase peer)
    visibilityCache := s.visibilityCache.mapValues (fun _ entry => entry.erase peer) }

/-- A node is freed. -/
def nodeTreeExiting (node : N) (s : ReplicationService N) : ReplicationService N :=
  let s :=
    if node ∈ s.replicationVisibility then
      let (peers, s) := s.getObservingPeers T node
      let s := peers.foldl (fun s peer => s.updateVisibility T peer [] [node]) s
      { s with replicationVisibility := s.replicationVisibility.erase node }
    else s
  { s with visibilityCache := s.visibilityCache.erase node }

/-- A node is freed with all nodes below it. -/
def freeBranch (node : N) (s : ReplicationService N) : ReplicationService N :=
  ((s.replicationVisibility.keys ++ s.visibilityCache.keys).filter
    (fun n => node ∈ T.path n)).foldl (fun s n => s.nodeTreeExiting T n) s

end ReplicationService

namespace ZoneServer

variable {S N : Type} [DecidableEq N] {T : ServerTree S N} (w : RpcWorld S N)
  (isInstanceValid : N → Bool) (s : ZoneServer T)

def isZoneValid (zone : Zone T) : Bool := zone ∉ s.queuedForDeletion

def hasZone (zone : Zone T) : Bool := zone ∈ s.zones

/-- The setter asks for the property to be synced, and the SyncService looks up who observes the
zone. -/
def setInterest (zone : Zone T) (interest : List Int) : ZoneServer T :=
  { s with
    interest := Function.update s.interest zone interest
    replication := (s.replication.getObservingPeers T zone).2 }

def setPeerVisibility (zone : Zone T) (peer : Int) (visibility : Bool) : ZoneServer T :=
  { s with replication := s.replication.setPeerVisibility T zone peer visibility }

def addInterest (peer : Int) (zone : Zone T) : ZoneServer T :=
  if !s.isZoneValid zone then s
  else if peer ∈ s.interest zone then s
  else (s.setInterest zone (s.interest zone ++ [peer])).setPeerVisibility zone peer true

def removeInterest (peer : Int) (zone : Zone T) : ZoneServer T :=
  if !s.isZoneValid zone then s
  else if peer ∉ s.interest zone then s
  else (s.setInterest zone ((s.interest zone).filter (fun p => p ≠ peer))).setPeerVisibility
    zone peer false

def addZone (zone : Zone T) (scene : N) : ZoneServer T :=
  if zone ∈ s.zones then s
  else { s with
    zones := s.zones ++ [zone]
    interest := Function.update s.interest zone []
    replication := (s.replication.setVisibility T zone false).setVisibility T scene true }

def removeZone (zone : Zone T) : ZoneServer T :=
  if zone ∉ s.zones then s
  else
    let s :=
      match s.interest zone with
      | [] => s
      -- the engine's loop over the interest ends when its current key is erased
      | peer :: _ => s.removeInterest peer zone
    { s with
      zones := s.zones.erase zone
      queuedForDeletion := s.queuedForDeletion ++ [zone] }

def clearInterestIn (peer : Int) : List (Zone T) → ZoneServer T → ZoneServer T
  | [], s => s
  | zone :: zones, s =>
    clearInterestIn peer zones (if peer ∈ s.interest zone then s.removeInterest peer zone else s)

def clearPeerInterest (peer : Int) : ZoneServer T := clearInterestIn peer s.zones s

/-- The zones that are queued for deletion are freed. -/
def frameEnd : ZoneServer T :=
  { s with
    replication := s.queuedForDeletion.foldl (fun r zone => r.freeBranch T zone) s.replication
    interest := fun zone => if zone ∈ s.queuedForDeletion then [] else s.interest zone
    queuedForDeletion := [] }

/-- A scene of a client is taken into the tree. -/
def acceptReplication (node : N) (peer : Int) : ZoneServer T :=
  let r := { s.replication with
    clientCreatedScenes := s.replication.clientCreatedScenes.set node peer }
  { s with replication := (r.setPeerVisibility T node peer false).setVisibility T node true }

def checkRatelimit (time : ℚ) (peer : Int) (object : N) (config : ReplicationMethodConfig) :
    ZoneServer T :=
  let api := { w with time := time }.serverApi T isInstanceValid s.replication.peers
  { s with
    ratelimits := (api.checkRpcRatelimit peer object config
      (.idle T.repository s.ratelimits s.replication)).2.peerConfigRatelimits }

/-- The transport drops a peer, and then the RPC layer, the ReplicationService and the ZoneService
handle it. -/
def peerDisconnected (peer : Int) : ZoneServer T :=
  if peer ∉ s.replication.peers then s
  else
    let r := { s.replication with
      peers := s.replication.peers.filter (fun p => p ≠ peer) }
    let s := { s with
      ratelimits := s.ratelimits.erase peer
      replication := r.peerDisconnected peer }
    { s.clearPeerInterest peer with
      left := some peer }

def step (s : ZoneServer T) (event : ZoneEvent T) : ZoneServer T :=
  let s := { s with
    left := none }
  match event with
  | .visibility call => { s with replication := s.replication.step T call }
  | .addZone zone scene => s.addZone zone scene
  | .removeZone zone => s.removeZone zone
  | .addInterest peer zone => s.addInterest peer zone
  | .removeInterest peer zone => s.removeInterest peer zone
  | .acceptReplication node peer => s.acceptReplication node peer
  | .checkRatelimit time peer object config =>
    s.checkRatelimit w isInstanceValid time peer object config
  | .frameEnd => s.frameEnd
  | .disconnect peer => s.peerDisconnected peer

/-- Nothing is kept about a peer, and only connected peers observe anything. -/
structure NoTrace (p : Int) : Prop where
  visibility : ∀ n entry, s.replication.replicationVisibility.get? n = some entry → p ∉ entry
  cache : ∀ n entry, s.replication.visibilityCache.get? n = some entry → p ∉ entry
  interest : ∀ zone, p ∉ s.interest zone
  ratelimits : p ∉ s.ratelimits
  scenes : ∀ n, s.replication.clientCreatedScenes.get? n ≠ some p
  observers : ∀ n q, s.replication.Observes T n q → q ∈ s.replication.peers

/-- The departure of a peer that has no interest in a zone, while every scene that a client has
requested is that of another connected peer. -/
def Departs (p : Int) : Prop :=
  (∀ zone, p ∉ s.interest zone) ∧
    ∀ n q, s.replication.clientCreatedScenes.get? n = some q → q ∈ s.replication.peers ∧ q ≠ p

/-- The departures of connected peers leave nothing behind. -/
def Departing : ZoneEvent T → Prop
  | .disconnect peer => (peer : Int) ∈ s.replication.peers → s.Departs peer
  | _ => True

/-- A node's entry says something about a peer. -/
def Mentions (n : N) (p : Int) : Prop :=
  ∃ entry, s.replication.replicationVisibility.get? n = some entry ∧ p ∈ entry

/-- What the entries say about is only added to, and the peers and the scenes of clients stay. -/
structure Grows (s s' : ZoneServer T) : Prop where
  peers : s'.replication.peers = s.replication.peers
  scenes : s'.replication.clientCreatedScenes = s.replication.clientCreatedScenes
  queued : s'.queuedForDeletion = s.queuedForDeletion
  ratelimits : s'.ratelimits = s.ratelimits
  mentions : ∀ n p, s.Mentions n p → s'.Mentions n p

variable {w isInstanceValid} {s s' s'' : ZoneServer T} {zone : Zone T} {p q : Int}

theorem Grows.refl : Grows s s := ⟨rfl, rfl, rfl, rfl, fun _ _ h => h⟩

theorem Grows.trans (h : Grows s s') (h' : Grows s' s'') : Grows s s'' :=
  ⟨h'.peers.trans h.peers, h'.scenes.trans h.scenes, h'.queued.trans h.queued,
    h'.ratelimits.trans h.ratelimits, fun n p hm => h'.mentions n p (h.mentions n p hm)⟩

theorem setInterest_grows (zone : Zone T) (interest : List Int) :
    Grows s (s.setInterest zone interest) := by
  obtain ⟨_, hq⟩ := ReplicationService.getObservingPeers_spec T s.replication zone
  apply Grows.mk hq.peers
  · change (s.replication.getObservingPeers T zone).2.clientCreatedScenes = _
    rw [hq.frame]
  · rfl
  · rfl
  · intro n p hm
    change ∃ entry, (s.replication.getObservingPeers T zone).2.replicationVisibility.get? n = _ ∧ _
    rw [hq.visibility]
    exact hm

theorem setPeerVisibility_spec (zone : Zone T) (p : Int) (v : Bool) :
    Grows s (s.setPeerVisibility zone p v) ∧ (s.setPeerVisibility zone p v).Mentions zone p := by
  have hcan : s.replication.canRegister T zone = true := by
    rw [ReplicationService.canRegister, zone.2, Bool.or_true]
  obtain ⟨mid, hchange⟩ := ReplicationService.changeVisibility_spec hcan [p]
    (fun entry => entry.set p v) p
  have hget (n : N) : (s.setPeerVisibility zone p v).replication.replicationVisibility.get? n =
      if n = zone then some ((s.replication.entryOf zone).set p v)
        else s.replication.replicationVisibility.get? n :=
    ReplicationService.get?_changeVisibility hcan [p] (fun entry => entry.set p v) p n
  apply And.intro
  · apply Grows.mk
    · have hpeers := hchange.queried.peers
      rw [hchange.mid_frame] at hpeers
      exact hpeers
    · have hframe := congrArg (fun r => r.clientCreatedScenes) hchange.queried.frame
      rw [hchange.mid_frame] at hframe
      exact hframe
    · rfl
    · rfl
    · intro n q hm
      obtain ⟨entry, hentry, hmem⟩ := hm
      rw [Mentions, hget]
      by_cases hn : n = zone
      · rw [if_pos hn]
        refine ⟨_, rfl, (Dict.mem_set _).2 (.inr ?_)⟩
        rw [← hn, ReplicationService.entryOf, Dict.getD_of_get? _ hentry]
        exact hmem
      · rw [if_neg hn]
        exact ⟨entry, hentry, hmem⟩
  · rw [Mentions, hget, if_pos rfl]
    exact ⟨_, rfl, (Dict.mem_set _).2 (.inl rfl)⟩

theorem removeInterest_grows (zone : Zone T) : Grows s (s.removeInterest p zone) := by
  simp only [removeInterest]
  split
  · exact .refl
  · split
    · exact .refl
    · exact (setInterest_grows zone _).trans (setPeerVisibility_spec zone p false).1

theorem removeInterest_mentions (hvalid : zone ∉ s.queuedForDeletion)
    (hp : p ∈ s.interest zone) : (s.removeInterest p zone).Mentions zone p := by
  have hz : s.isZoneValid zone = true := decide_eq_true hvalid
  simp only [removeInterest, hz, hp, Bool.not_true, Bool.false_eq_true, ↓reduceIte,
    not_true_eq_false]
  exact (setPeerVisibility_spec zone p false).2

theorem removeInterest_interest {other : Zone T}
    (h : zone ≠ other ∨ zone ∈ s.queuedForDeletion) :
    (s.removeInterest p zone).interest other = s.interest other := by
  simp only [removeInterest]
  split
  · rfl
  · next hvalid =>
    split
    · rfl
    · cases h with
      | inl hne => exact Function.update_of_ne hne.symm _ _
      | inr hq =>
        have hz : s.isZoneValid zone = false := decide_eq_false (not_not_intro hq)
        exact absurd (by rw [hz]; rfl) hvalid

theorem clearInterestIn_grows (p : Int) (zones : List (Zone T)) :
    Grows s (clearInterestIn p zones s) := by
  induction zones generalizing s with
  | nil => exact .refl
  | cons zone zones ih =>
    simp only [clearInterestIn]
    split
    · exact (removeInterest_grows zone).trans ih
    · exact ih

theorem clearInterestIn_mentions {zones : List (Zone T)} (hzone : zone ∈ zones)
    (hvalid : zone ∉ s.queuedForDeletion) (hp : p ∈ s.interest zone) :
    (clearInterestIn p zones s).Mentions zone p := by
  induction zones generalizing s with
  | nil => cases hzone
  | cons z zones ih =>
    simp only [clearInterestIn]
    by_cases hz : z = zone
    · subst hz
      rw [if_pos hp]
      apply (clearInterestIn_grows p zones).mentions
      exact removeInterest_mentions hvalid hp
    · have hrest : zone ∈ zones := (List.mem_cons.1 hzone).resolve_left (fun h => hz h.symm)
      split
      · apply ih hrest
        · rw [(removeInterest_grows z).queued]
          exact hvalid
        · rw [removeInterest_interest (.inl hz)]
          exact hp
      · exact ih hrest hvalid hp

theorem clearInterestIn_interest {zones : List (Zone T)}
    (h : zone ∉ zones ∨ zone ∈ s.queuedForDeletion) :
    (clearInterestIn p zones s).interest zone = s.interest zone := by
  induction zones generalizing s with
  | nil => rfl
  | cons z zones ih =>
    have hz : z ≠ zone ∨ z ∈ s.queuedForDeletion := by
      by_cases heq : z = zone
      · exact .inr (heq ▸ h.resolve_left (fun hno => hno (heq ▸ List.mem_cons_self)))
      · exact .inl heq
    have hrest : zone ∉ zones ∨ zone ∈ s.queuedForDeletion :=
      h.imp_left (fun hno hm => hno (List.mem_cons_of_mem _ hm))
    simp only [clearInterestIn]
    split
    · rw [ih (by rw [(removeInterest_grows z).queued]; exact hrest), removeInterest_interest hz]
    · exact ih hrest

theorem clearInterestIn_of_none {zones : List (Zone T)} (h : ∀ zone, p ∉ s.interest zone) :
    clearInterestIn p zones s = s := by
  induction zones with
  | nil => rfl
  | cons z zones ih =>
    simp only [clearInterestIn, if_neg (h z)]
    exact ih

theorem not_mem_erased {entries : Dict N (Dict Int Bool)} {entry : Dict Int Bool}
    (h : (entries.mapValues (fun _ entry => entry.erase p)).get? n = some entry) :
    p ∉ entry := by
  rw [Dict.get?_mapValues] at h
  obtain ⟨old, _, rfl⟩ := Option.map_eq_some_iff.1 h
  simp only [Dict.mem_erase, ne_eq, not_true_eq_false, false_and, not_false_eq_true]

/-- After its departure nothing is kept about a peer exactly if it had no interest in a zone and
every scene of a client is that of another connected peer. -/
theorem noTrace_iff (hp : p ∈ s.replication.peers) :
    (s.peerDisconnected p).NoTrace p ↔ s.Departs p := by
  obtain ⟨t, ht⟩ : ∃ t : ZoneServer T, t = { s with
    ratelimits := s.ratelimits.erase p
    replication := ReplicationService.peerDisconnected p { s.replication with
      peers := s.replication.peers.filter (fun q => q ≠ p) } } := ⟨_, rfl⟩
  have hrun : s.peerDisconnected p = { clearInterestIn p s.zones t with
      left := some p } := by
    rw [peerDisconnected, if_neg (not_not_intro hp), ht]
    rfl
  have hgrows := clearInterestIn_grows (s := t) p s.zones
  have hinterest : t.interest = s.interest := by rw [ht]
  have hqueued : t.queuedForDeletion = s.queuedForDeletion := by rw [ht]
  have hscenes : t.replication.clientCreatedScenes = s.replication.clientCreatedScenes := by
    rw [ht]
    rfl
  have hpeers : t.replication.peers = s.replication.peers.filter (fun q => q ≠ p) := by
    rw [ht]
    rfl
  rw [hrun]
  apply Iff.intro
  · intro h
    apply And.intro
    · intro zone hzone
      rw [← hinterest] at hzone
      by_cases hcleared : zone ∈ s.zones ∧ zone ∉ t.queuedForDeletion
      · obtain ⟨entry, hentry, hmem⟩ := clearInterestIn_mentions hcleared.1 hcleared.2 hzone
        exact h.visibility zone entry hentry hmem
      · have hkept : zone ∉ s.zones ∨ zone ∈ t.queuedForDeletion := by
          by_cases hz : zone ∈ s.zones
          · exact .inr (not_not.1 (fun hq => hcleared ⟨hz, hq⟩))
          · exact .inl hz
        apply h.interest zone
        change p ∈ (clearInterestIn p s.zones t).interest zone
        rw [clearInterestIn_interest hkept]
        exact hzone
    · intro n q hq
      have hobs : (clearInterestIn p s.zones t).replication.Observes T n q := by
        apply ReplicationService.observes_iff.2
        right
        rw [hgrows.scenes, hscenes]
        exact hq
      have hconnected := h.observers n q hobs
      change q ∈ (clearInterestIn p s.zones t).replication.peers at hconnected
      rw [hgrows.peers, hpeers, List.mem_filter, decide_eq_true_eq] at hconnected
      exact hconnected
  · intro h
    obtain ⟨hnone, hcreators⟩ := h
    rw [clearInterestIn_of_none (hinterest ▸ hnone)]
    apply NoTrace.mk
    · intro n entry hentry
      change t.replication.replicationVisibility.get? n = _ at hentry
      rw [ht] at hentry
      exact not_mem_erased hentry
    · intro n entry hentry
      change t.replication.visibilityCache.get? n = _ at hentry
      rw [ht] at hentry
      exact not_mem_erased hentry
    · intro zone
      change p ∉ t.interest zone
      rw [hinterest]
      exact hnone zone
    · change p ∉ t.ratelimits
      rw [ht]
      simp only [Dict.mem_erase, ne_eq, not_true_eq_false, false_and, not_false_eq_true]
    · intro n hn
      change t.replication.clientCreatedScenes.get? n = _ at hn
      rw [hscenes] at hn
      exact (hcreators n p hn).2 rfl
    · intro n q hobs
      change t.replication.Observes T n q at hobs
      change q ∈ t.replication.peers
      rcases ReplicationService.observes_iff.1 hobs with ⟨hclient, _⟩ | hcreated
      · exact List.mem_of_mem_filter hclient
      · rw [hscenes] at hcreated
        rw [hpeers, List.mem_filter, decide_eq_true_eq]
        exact hcreators n q hcreated

/-- The departures of a run leave nothing behind. -/
def Clean (s : ZoneServer T) : Prop := ∀ p, s.left = some p → s.NoTrace p

theorem Clean.of_left (h : s.left = none) : s.Clean := by
  intro p hp
  rw [h] at hp
  cases hp

theorem addInterest_left : (s.addInterest p zone).left = s.left := by
  simp only [addInterest]
  split
  · rfl
  · split <;> rfl

theorem removeInterest_left : (s.removeInterest p zone).left = s.left := by
  simp only [removeInterest]
  split
  · rfl
  · split <;> rfl

theorem removeZone_left : (s.removeZone zone).left = s.left := by
  simp only [removeZone]
  split
  · rfl
  · split
    · rfl
    · exact removeInterest_left

theorem addZone_left {scene : N} : (s.addZone zone scene).left = s.left := by
  simp only [addZone]
  split <;> rfl

theorem step_clean_iff (event : ZoneEvent T) :
    (s.step w isInstanceValid event).Clean ↔ s.Departing event := by
  have htrue {t : ZoneServer T} (ht : t.left = none) : t.Clean ↔ True :=
    iff_true_intro (Clean.of_left ht)
  cases event with
  | visibility call => exact htrue rfl
  | addZone zone scene => exact htrue addZone_left
  | removeZone zone => exact htrue removeZone_left
  | addInterest peer zone => exact htrue addInterest_left
  | removeInterest peer zone => exact htrue removeInterest_left
  | acceptReplication node peer => exact htrue rfl
  | checkRatelimit time peer object config => exact htrue rfl
  | frameEnd => exact htrue rfl
  | disconnect peer =>
    by_cases hp : (peer : Int) ∈ s.replication.peers
    · have hleft : (s.step w isInstanceValid (.disconnect peer)).left = some (peer : Int) := by
        simp only [step, peerDisconnected, hp, not_true_eq_false, ↓reduceIte]
      have htrace : (s.step w isInstanceValid (.disconnect peer)).NoTrace peer ↔
          s.Departs peer :=
        noTrace_iff (s := { s with
          left := none }) hp
      rw [Clean, hleft]
      simp only [Option.some.injEq, forall_eq', htrace, Departing, hp, forall_const]
    · have hleft : (s.step w isInstanceValid (.disconnect peer)).left = none := by
        simp only [step, peerDisconnected, hp, not_false_eq_true, ↓reduceIte]
      refine (htrue hleft).trans (iff_of_true trivial ?_)
      intro hpeer
      exact absurd hpeer hp

/-- A server that has just started. -/
def start : ZoneServer T := ⟨.empty, .start, [], fun _ => [], [], none⟩

/-- The runs in which no departure leaves anything behind are those in which every peer that
departs has no interest in a zone, and every scene of a client is then that of another connected
peer. -/
theorem no_trace_iff (T : ServerTree S N) (w : RpcWorld S N) (isInstanceValid : N → Bool)
    (events : List (ZoneEvent T)) :
    Runs.Always (step w isInstanceValid) Clean start events ↔
      Runs.Guarded (step w isInstanceValid) Departing start events :=
  Runs.always_iff_guarded (I := fun _ => True) (fun _ _ _ _ _ => trivial)
    (fun _ event _ _ => step_clean_iff event) trivial (Clean.of_left rfl)

/-- A tree with a zone, and a scene in it. -/
def zoneTree : ServerTree Unit SmallNode :=
  smallTree (fun n => if n = .scene then some () else none)

def smallZone : Zone zoneTree := ⟨.scene, rfl⟩

/-- Peer 2 leaves while it has interest in a zone; peer 2 leaves after a scene that it has requested
was taken into the tree. -/
theorem traces_left :
    ¬ Runs.Always (step pingWorld (fun _ => true)) Clean start
        [.visibility (.peerConnected .two), .addZone smallZone .actor, .addInterest .two smallZone,
          .disconnect .two] ∧
      ¬ Runs.Always (step pingWorld (fun _ => true)) (Clean (T := zoneTree)) start
        [.visibility (.peerConnected .two), .acceptReplication .scene .two, .disconnect .two] := by
  apply And.intro
  · intro h
    have hclean := h.last
    simp only [Runs.run_cons, Runs.run_nil] at hclean
    have hguard := (step_clean_iff (.disconnect .two)).1 hclean
    have hdeparts := hguard (by decide)
    exact absurd (hdeparts.1 smallZone) (by decide)
  · intro h
    have hclean := h.last
    simp only [Runs.run_cons, Runs.run_nil] at hclean
    have hguard := (step_clean_iff (.disconnect .two)).1 hclean
    have hdeparts := hguard (by decide)
    exact (hdeparts.2 .scene 2 (by decide)).2 rfl

end ZoneServer

end Godaemon
