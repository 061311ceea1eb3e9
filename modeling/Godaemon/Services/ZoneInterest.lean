import Godaemon.Services.ZoneService

namespace Godaemon
set_option autoImplicit true

/-- A signal of a zone. -/
inductive ZoneSignal {S N : Type} [DecidableEq N] (T : ServerTree S N) where
  | interestAdded (zone : Zone T) (peer : Int)
  | interestRemoved (zone : Zone T) (peer : Int)

/-- The ZoneService with what its zones keep to themselves: the interest they last told about, and
the signals they have emitted. -/
structure InterestServer {S N : Type} [DecidableEq N] (T : ServerTree S N) where
  server : ZoneServer T
  oldInterest : Zone T → List Int
  signals : List (ZoneSignal T)

inductive InterestEvent {S N : Type} [DecidableEq N] (T : ServerTree S N) where
  | addZone (zone : Zone T) (scene : N)
  | addInterest (peer : Int) (zone : Zone T)
  | removeInterest (peer : Int) (zone : Zone T)
  | clearPeerInterest (peer : Int)
  | removeZone (zone : Zone T)
  | connect (peer : Int)
  | disconnect (peer : Int)

/-- What a signal says about a peer and a zone. -/
def ZoneSignal.note {S N : Type} [DecidableEq N] {T : ServerTree S N} (zone : Zone T) (peer : Int) :
    ZoneSignal T → Option Bool
  | .interestAdded z p => if z = zone ∧ p = peer then some true else none
  | .interestRemoved z p => if z = zone ∧ p = peer then some false else none

namespace InterestServer

variable {S N : Type} [DecidableEq N] {T : ServerTree S N} (s : InterestServer T)

/-- The setter of a zone's interest: whoever is new or gone is told about. -/
def setInterest (zone : Zone T) (interest : List Int) : InterestServer T :=
  { server := s.server.setInterest zone interest
    oldInterest := Function.update s.oldInterest zone interest
    signals := s.signals ++
      (interest.filter (fun p => p ∉ s.oldInterest zone)).map (.interestAdded zone) ++
      ((s.oldInterest zone).filter (fun p => p ∉ interest)).map (.interestRemoved zone) }

def setPeerVisibility (zone : Zone T) (peer : Int) (visibility : Bool) : InterestServer T :=
  { s with server := s.server.setPeerVisibility zone peer visibility }

def addInterest (peer : Int) (zone : Zone T) : InterestServer T :=
  if !s.server.isZoneValid zone then s
  else if peer ∈ s.server.interest zone then s
  else (s.setInterest zone (s.server.interest zone ++ [peer])).setPeerVisibility zone peer true

def removeInterest (peer : Int) (zone : Zone T) : InterestServer T :=
  if !s.server.isZoneValid zone then s
  else if peer ∉ s.server.interest zone then s
  else (s.setInterest zone
    ((s.server.interest zone).filter (fun p => p ≠ peer))).setPeerVisibility zone peer false

/-- A zone is an object that has never been seen before. -/
def addZone (zone : Zone T) (scene : N) : InterestServer T :=
  if s.server.hasZone zone || !s.server.isZoneValid zone then s
  else { s with
    server := s.server.addZone zone scene
    oldInterest := Function.update s.oldInterest zone [] }

def removeZone (zone : Zone T) : InterestServer T :=
  if !s.server.hasZone zone then s
  else
    let s :=
      match s.server.interest zone with
      | [] => s
      -- the engine's loop over the interest ends when its current key is erased
      | peer :: _ => s.removeInterest peer zone
    { s with server := { s.server with
        zones := s.server.zones.erase zone
        queuedForDeletion := s.server.queuedForDeletion ++ [zone] } }

def clearInterestIn (peer : Int) : List (Zone T) → InterestServer T → InterestServer T
  | [], s => s
  | zone :: zones, s =>
    clearInterestIn peer zones
      (if peer ∈ s.server.interest zone then s.removeInterest peer zone else s)

def clearPeerInterest (peer : Int) : InterestServer T := clearInterestIn peer s.server.zones s

def peerConnected (peer : Int) : InterestServer T :=
  { s with server := { s.server with
      replication := s.server.replication.peerConnected T peer } }

/-- The state in which the RPC layer and the ReplicationService have handled a departure. -/
def forgotten (peer : Int) : InterestServer T :=
  { s with server := { s.server with
      ratelimits := s.server.ratelimits.erase peer
      replication := ReplicationService.peerDisconnected peer { s.server.replication with
        peers := s.server.replication.peers.filter (fun p => p ≠ peer) } } }

def peerDisconnected (peer : Int) : InterestServer T :=
  if peer ∉ s.server.replication.peers then s
  else
    let s := (s.forgotten peer).clearPeerInterest peer
    { s with server := { s.server with
        left := some peer } }

/-- Interest is only ever given in a zone that has been added. -/
def step (s : InterestServer T) : InterestEvent T → InterestServer T
  | .addZone zone scene => s.addZone zone scene
  | .addInterest peer zone =>
    if s.server.hasZone zone || !s.server.isZoneValid zone then s.addInterest peer zone
    else s
  | .removeInterest peer zone => s.removeInterest peer zone
  | .clearPeerInterest peer => s.clearPeerInterest peer
  | .removeZone zone => s.removeZone zone
  | .connect peer => s.peerConnected peer
  | .disconnect peer => s.peerDisconnected peer

def start : InterestServer T := ⟨.start, fun _ => [], []⟩

/-- What has been told about a peer's interest in a zone, in order. -/
def history (zone : Zone T) (peer : Int) : List Bool :=
  s.signals.filterMap (ZoneSignal.note zone peer)

/-- The override of a zone's visibility for a peer. -/
def override (zone : Zone T) (peer : Int) : Option Bool :=
  s.server.replication.replicationVisibility.get2? zone.1 peer

/-- An addition that is followed by a removal, over and over. -/
def pairs (k : Nat) : List Bool := (List.replicate k [true, false]).flatten

/-- A peer is in the interest of a zone if and only if the zone is visible for it; and whenever
interest was added it was then removed once, but for the peers that are in the interest of a zone
now. Key 1 of the overrides is the default. -/
structure Balanced : Prop where
  agree : ∀ zone ∈ s.server.zones, ∀ p, p ≠ 1 →
    (p ∈ s.server.interest zone ↔ s.override zone p = some true)
  paired : ∀ zone p, ∃ k, s.history zone p =
    pairs k ++ if zone ∈ s.server.zones ∧ p ∈ s.server.interest zone then [true] else []

/-- A zone that is removed has at most one peer in its interest. -/
def Admits : InterestEvent T → Prop
  | .removeZone zone => zone ∈ s.server.zones → (s.server.interest zone).length ≤ 1
  | _ => True

/-- What else holds of the zones: an interest has no duplicates and has been told about, and a zone
that is yet to be added has no interest and no overrides. -/
structure Tidy : Prop where
  old : ∀ zone, s.oldInterest zone = s.server.interest zone
  nodup : ∀ zone, (s.server.interest zone).Nodup
  distinct : s.server.zones.Nodup
  live : ∀ zone ∈ s.server.zones, zone ∉ s.server.queuedForDeletion
  unmade : ∀ zone, zone ∉ s.server.zones → zone ∉ s.server.queuedForDeletion →
    s.server.interest zone = [] ∧ ∀ p, p ≠ 1 → s.override zone p ≠ some true

/-- From one state to the other, one peer enters or leaves the interest of one zone. -/
structure Toggles (s s' : InterestServer T) (zone : Zone T) (p : Int) (v : Bool) : Prop where
  zones : s'.server.zones = s.server.zones
  queued : s'.server.queuedForDeletion = s.server.queuedForDeletion
  old : ∀ z, s'.oldInterest z = s'.server.interest z
  nodup : ∀ z, (s'.server.interest z).Nodup
  interest : ∀ z q, q ∈ s'.server.interest z ↔
    if z = zone ∧ q = p then v = true else q ∈ s.server.interest z
  override : ∀ z q, q ≠ 1 → s'.override z q =
    if z = zone ∧ q = p then some v else s.override z q
  history : ∀ z q, s'.history z q =
    if z = zone ∧ q = p then s.history z q ++ [v] else s.history z q

/-- Balance, but that a departing peer may have lost its overrides before its interest. -/
structure BalancedBut (departing : Option Int) : Prop where
  granted : ∀ zone ∈ s.server.zones, ∀ p, p ≠ 1 → some p ≠ departing →
    p ∈ s.server.interest zone → s.override zone p = some true
  hidden : ∀ zone ∈ s.server.zones, ∀ p, p ≠ 1 → s.override zone p = some true →
    p ∈ s.server.interest zone
  paired : ∀ zone p, ∃ k, s.history zone p =
    pairs k ++ if zone ∈ s.server.zones ∧ p ∈ s.server.interest zone then [true] else []

variable {s} {s' : InterestServer T} {zone : Zone T} {p : Int} {v : Bool} {departing : Option Int}

theorem hasZone_iff (r : ZoneServer T) : r.hasZone zone = true ↔ zone ∈ r.zones :=
  decide_eq_true_iff

theorem isZoneValid_iff (r : ZoneServer T) :
    r.isZoneValid zone = true ↔ zone ∉ r.queuedForDeletion := decide_eq_true_iff

theorem made_iff (r : ZoneServer T) : (r.hasZone zone || !r.isZoneValid zone) = true ↔
    zone ∈ r.zones ∨ zone ∈ r.queuedForDeletion := by
  rw [Bool.or_eq_true, Bool.not_eq_true', ← Bool.not_eq_true, hasZone_iff, isZoneValid_iff, not_not]

theorem server_addInterest (p : Int) (zone : Zone T) :
    (s.addInterest p zone).server = s.server.addInterest p zone := by
  simp only [addInterest, ZoneServer.addInterest]
  split
  · rfl
  · split <;> rfl

theorem server_removeInterest (p : Int) (zone : Zone T) :
    (s.removeInterest p zone).server = s.server.removeInterest p zone := by
  simp only [removeInterest, ZoneServer.removeInterest]
  split
  · rfl
  · split <;> rfl

theorem server_clearInterestIn (p : Int) (zones : List (Zone T)) :
    (clearInterestIn p zones s).server = ZoneServer.clearInterestIn p zones s.server := by
  induction zones generalizing s with
  | nil => rfl
  | cons zone zones ih =>
    simp only [clearInterestIn, ZoneServer.clearInterestIn]
    split
    · rw [ih, server_removeInterest]
    · exact ih

theorem server_removeZone (zone : Zone T) :
    (s.removeZone zone).server = s.server.removeZone zone := by
  simp only [removeZone, ZoneServer.removeZone]
  by_cases hzone : zone ∈ s.server.zones
  · simp only [(hasZone_iff _).2 hzone, hzone, not_true_eq_false, Bool.not_true, Bool.false_eq_true,
      ↓reduceIte]
    cases s.server.interest zone with
    | nil => rfl
    | cons peer peers => simp only [server_removeInterest]
  · have hno : s.server.hasZone zone = false := decide_eq_false hzone
    simp only [hno, hzone, not_false_eq_true, Bool.not_false, ↓reduceIte]

theorem server_peerDisconnected (p : Int) :
    (s.peerDisconnected p).server = s.server.peerDisconnected p := by
  simp only [peerDisconnected, ZoneServer.peerDisconnected]
  split
  · rfl
  · simp only [clearPeerInterest, ZoneServer.clearPeerInterest, server_clearInterestIn]
    rfl

theorem override_setPeerVisibility (zone z : Zone T) (p q : Int) (v : Bool) (hq : q ≠ 1) :
    (s.setPeerVisibility zone p v).override z q =
      if z = zone ∧ q = p then some v else s.override z q := by
  have hcan : s.server.replication.canRegister T zone = true := by
    rw [ReplicationService.canRegister, zone.2, Bool.or_true]
  have hset := ReplicationService.get2?_changeVisibility hcan [p] p v p z.1 hq
  simp only [override, setPeerVisibility, ZoneServer.setPeerVisibility,
    ReplicationService.setPeerVisibility, hset, Subtype.ext_iff]

theorem override_setInterest (zone z : Zone T) (interest : List Int) (q : Int) :
    (s.setInterest zone interest).override z q = s.override z q := by
  obtain ⟨_, hq⟩ := ReplicationService.getObservingPeers_spec T s.server.replication zone
  simp only [override, setInterest, ZoneServer.setInterest, hq.visibility]

theorem signals_join (hold : s.oldInterest zone = s.server.interest zone)
    (hp : p ∉ s.server.interest zone) :
    (s.setInterest zone (s.server.interest zone ++ [p])).signals =
      s.signals ++ [.interestAdded zone p] := by
  have hnew : (s.server.interest zone ++ [p]).filter (fun q => q ∉ s.server.interest zone) =
      [p] := by
    rw [List.filter_append, List.filter_eq_nil_iff.2, List.nil_append]
    · simp [hp]
    · simp
  have hgone : (s.server.interest zone).filter
      (fun q => q ∉ s.server.interest zone ++ [p]) = [] := by
    rw [List.filter_eq_nil_iff]
    simp +contextual
  simp only [setInterest, hold, hnew, hgone, List.map_nil, List.append_nil, List.map_cons]

theorem signals_leave (hold : s.oldInterest zone = s.server.interest zone)
    (hnodup : (s.server.interest zone).Nodup) (hp : p ∈ s.server.interest zone) :
    (s.setInterest zone ((s.server.interest zone).filter (fun q => q ≠ p))).signals =
      s.signals ++ [.interestRemoved zone p] := by
  have hnew : ((s.server.interest zone).filter (fun q => q ≠ p)).filter
      (fun q => q ∉ s.server.interest zone) = [] := by
    rw [List.filter_eq_nil_iff]
    simp +contextual
  have hgone : (s.server.interest zone).filter
      (fun q => q ∉ (s.server.interest zone).filter (fun q => q ≠ p)) = [p] := by
    have heq : (s.server.interest zone).filter
        (fun q => q ∉ (s.server.interest zone).filter (fun q => q ≠ p)) =
        (s.server.interest zone).filter (fun q => q = p) := by
      apply List.filter_congr
      intro q hq
      simp [List.mem_filter, hq]
    rw [heq, List.filter_eq, List.count_eq_one_of_mem hnodup hp]
    rfl
  simp only [setInterest, hold, hnew, hgone, List.map_nil, List.append_nil, List.map_cons]

theorem history_append {signal : ZoneSignal T}
    (h : s'.signals = s.signals ++ [signal])
    (hnote : ∀ z q, ZoneSignal.note z q signal = if z = zone ∧ q = p then some v else none)
    (z : Zone T) (q : Int) :
    s'.history z q = if z = zone ∧ q = p then s.history z q ++ [v] else s.history z q := by
  rw [history, h, List.filterMap_append, List.filterMap_cons, hnote]
  by_cases hz : z = zone ∧ q = p
  · simp only [if_pos hz]
    rfl
  · simp only [if_neg hz, List.filterMap_nil, List.append_nil]
    rfl

theorem setInterest_toggles (ht : s.Tidy) {interest : List Int} (signal : ZoneSignal T)
    (hnodup : interest.Nodup)
    (hmem : ∀ q, q ∈ interest ↔ if q = p then v = true else q ∈ s.server.interest zone)
    (hsignals : (s.setInterest zone interest).signals = s.signals ++ [signal])
    (hnote : ∀ z q, ZoneSignal.note z q signal = if z = zone ∧ q = p then some v else none) :
    Toggles s ((s.setInterest zone interest).setPeerVisibility zone p v) zone p v := by
  obtain ⟨t, hset⟩ : ∃ t, t = (s.setInterest zone interest).setPeerVisibility zone p v := ⟨_, rfl⟩
  have hinterest (z : Zone T) :
      t.server.interest z = if z = zone then interest else s.server.interest z := by
    rw [hset]
    exact Function.update_apply _ _ _ z
  have hold (z : Zone T) :
      t.oldInterest z = if z = zone then interest else s.oldInterest z := by
    rw [hset]
    exact Function.update_apply _ _ _ z
  rw [← hset]
  apply Toggles.mk
  · rw [hset]
    rfl
  · rw [hset]
    rfl
  · intro z
    rw [hinterest, hold, ht.old]
  · intro z
    rw [hinterest]
    split
    · exact hnodup
    · exact ht.nodup z
  · intro z q
    rw [hinterest]
    by_cases hz : z = zone
    · rw [if_pos hz, hmem, hz]
      simp only [true_and]
    · rw [if_neg hz, if_neg (fun h => hz h.1)]
  · intro z q hq
    rw [hset, override_setPeerVisibility zone z p q v hq, override_setInterest]
  · apply history_append
    · rw [hset]
      exact hsignals
    · exact hnote

theorem addInterest_toggles (ht : s.Tidy) (hvalid : zone ∉ s.server.queuedForDeletion)
    (hp : p ∉ s.server.interest zone) : Toggles s (s.addInterest p zone) zone p true := by
  have hz : s.server.isZoneValid zone = true := decide_eq_true hvalid
  simp only [addInterest, hz, hp, Bool.not_true, Bool.false_eq_true, ↓reduceIte]
  apply setInterest_toggles ht (.interestAdded zone p)
  · rw [List.nodup_append]
    refine ⟨ht.nodup zone, List.nodup_singleton p, fun q hq q' hq' he => ?_⟩
    rw [List.mem_singleton.1 hq'] at he
    exact hp (he ▸ hq)
  · intro q
    by_cases hq : q = p
    · simp [hq]
    · simp [hq]
  · exact signals_join (ht.old zone) hp
  · intro z q
    simp only [ZoneSignal.note, eq_comm (a := zone), eq_comm (a := p)]

theorem removeInterest_toggles (ht : s.Tidy) (hvalid : zone ∉ s.server.queuedForDeletion)
    (hp : p ∈ s.server.interest zone) : Toggles s (s.removeInterest p zone) zone p false := by
  have hz : s.server.isZoneValid zone = true := decide_eq_true hvalid
  simp only [removeInterest, hz, hp, Bool.not_true, Bool.false_eq_true, ↓reduceIte,
    not_true_eq_false]
  apply setInterest_toggles ht (.interestRemoved zone p)
  · exact (ht.nodup zone).filter _
  · intro q
    by_cases hq : q = p
    · simp [hq]
    · simp [hq]
  · exact signals_leave (ht.old zone) (ht.nodup zone) hp
  · intro z q
    simp only [ZoneSignal.note, eq_comm (a := zone), eq_comm (a := p)]

theorem Toggles.tidy (h : Toggles s s' zone p v) (ht : s.Tidy)
    (hzone : zone ∈ s.server.zones ∨ zone ∈ s.server.queuedForDeletion) : s'.Tidy := by
  refine ⟨h.old, h.nodup, ?_, ?_, ?_⟩
  · rw [h.zones]
    exact ht.distinct
  · intro z hz
    rw [h.zones] at hz
    rw [h.queued]
    exact ht.live z hz
  · intro z hz hq
    rw [h.zones] at hz
    rw [h.queued] at hq
    have hne : z ≠ zone := by
      intro he
      subst he
      exact hzone.elim hz hq
    obtain ⟨hnone, hover⟩ := ht.unmade z hz hq
    constructor
    · rw [List.eq_nil_iff_forall_not_mem]
      intro q hmem
      rw [h.interest, if_neg (fun hc => hne hc.1), hnone] at hmem
      cases hmem
    · intro q hq1
      rw [h.override z q hq1, if_neg (fun hc => hne hc.1)]
      exact hover q hq1

theorem balanced_iff : s.Balanced ↔ s.BalancedBut none := by
  constructor
  · intro h
    apply BalancedBut.mk
    · exact fun z hz q hq _ => (h.agree z hz q hq).1
    · exact fun z hz q hq => (h.agree z hz q hq).2
    · exact h.paired
  · intro h
    refine ⟨fun z hz q hq => ⟨h.granted z hz q hq ?_, h.hidden z hz q hq⟩, h.paired⟩
    exact Option.some_ne_none q

theorem pairs_succ (k : Nat) : pairs (k + 1) = pairs k ++ [true, false] := by
  rw [pairs, List.replicate_succ', List.flatten_append, List.flatten_singleton, ← pairs]

theorem length_pairs (k : Nat) : (pairs k).length = 2 * k := by
  induction k with
  | zero => rfl
  | succ k ih =>
    rw [pairs_succ, List.length_append, ih]
    rfl

theorem Toggles.balancedBut (h : Toggles s s' zone p v) (hb : s.BalancedBut departing)
    (hzone : zone ∈ s.server.zones) (hp : p ∈ s.server.interest zone ↔ v = false) :
    s'.BalancedBut departing := by
  refine ⟨?_, ?_, ?_⟩
  · intro z hz q hq hdep hmem
    rw [h.zones] at hz
    rw [h.interest] at hmem
    rw [h.override z q hq]
    split at hmem
    · next hc => rw [if_pos hc, hmem]
    · next hc =>
      rw [if_neg hc]
      exact hb.granted z hz q hq hdep hmem
  · intro z hz q hq hover
    rw [h.zones] at hz
    rw [h.override z q hq] at hover
    rw [h.interest]
    split at hover
    · next hc =>
      rw [if_pos hc]
      exact Option.some.inj hover
    · next hc =>
      rw [if_neg hc]
      exact hb.hidden z hz q hq hover
  · intro z q
    obtain ⟨k, hk⟩ := hb.paired z q
    rw [h.history, h.zones]
    simp only [h.interest]
    by_cases hc : z = zone ∧ q = p
    · simp only [hc, and_self, ↓reduceIte, hzone, true_and] at hk ⊢
      cases v with
      | true =>
        rw [if_neg (fun hmem => by cases hp.1 hmem)] at hk
        refine ⟨k, ?_⟩
        rw [hk, List.append_nil]
        rfl
      | false =>
        rw [if_pos (hp.2 rfl)] at hk
        refine ⟨k + 1, ?_⟩
        rw [hk, pairs_succ]
        simp
    · simp only [if_neg hc]
      exact ⟨k, hk⟩

theorem removeInterest_cases (ht : s.Tidy) (p : Int) (zone : Zone T) :
    (zone ∈ s.server.zones ∧ p ∈ s.server.interest zone ∧
      Toggles s (s.removeInterest p zone) zone p false) ∨
    (¬ (zone ∈ s.server.zones ∧ p ∈ s.server.interest zone) ∧ s.removeInterest p zone = s) := by
  by_cases hzone : zone ∈ s.server.zones
  · have hvalid := ht.live zone hzone
    by_cases hp : p ∈ s.server.interest zone
    · exact .inl ⟨hzone, hp, removeInterest_toggles ht hvalid hp⟩
    · refine .inr ⟨fun h => hp h.2, ?_⟩
      have hz : s.server.isZoneValid zone = true := decide_eq_true hvalid
      simp only [removeInterest, hz, hp, Bool.not_true, Bool.false_eq_true, ↓reduceIte,
        not_false_eq_true]
  · refine .inr ⟨fun h => hzone h.1, ?_⟩
    by_cases hq : zone ∈ s.server.queuedForDeletion
    · have hz : s.server.isZoneValid zone = false := decide_eq_false (not_not_intro hq)
      simp only [removeInterest, hz, Bool.not_false, ↓reduceIte]
    · have hnone := (ht.unmade zone hzone hq).1
      simp only [removeInterest, hnone, List.not_mem_nil, not_false_eq_true, ↓reduceIte, ite_self]

theorem clearInterestIn_spec (p : Int) (zones : List (Zone T))
    (hsub : ∀ z ∈ zones, z ∈ s.server.zones) (ht : s.Tidy) (hb : s.BalancedBut departing) :
    let s' := clearInterestIn p zones s
    s'.Tidy ∧ s'.BalancedBut departing ∧ s'.server.zones = s.server.zones ∧
      (∀ z q, q ∈ s'.server.interest z → q ∈ s.server.interest z) ∧
      ∀ z ∈ zones, p ∉ s'.server.interest z := by
  induction zones generalizing s with
  | nil => exact ⟨ht, hb, rfl, fun _ _ h => h, fun _ h => by cases h⟩
  | cons zone zones ih =>
    simp only [clearInterestIn]
    have hzone := hsub zone List.mem_cons_self
    have hrest : ∀ z ∈ zones, z ∈ s.server.zones := fun z hz => hsub z (List.mem_cons_of_mem _ hz)
    by_cases hp : p ∈ s.server.interest zone
    · rw [if_pos hp]
      have htoggle := removeInterest_toggles ht (ht.live zone hzone) hp
      obtain ⟨ht', hb', hzones, hshrink, hgone⟩ :=
        ih (s := s.removeInterest p zone) (by rw [htoggle.zones]; exact hrest)
          (htoggle.tidy ht (.inl hzone)) (htoggle.balancedBut hb hzone (iff_of_true hp rfl))
      have hback (z : Zone T) (q : Int) (hq : q ∈ (s.removeInterest p zone).server.interest z) :
          q ∈ s.server.interest z ∧ ¬ (z = zone ∧ q = p) := by
        rw [htoggle.interest] at hq
        split at hq
        · cases hq
        · next hc => exact ⟨hq, hc⟩
      refine ⟨ht', hb', hzones.trans htoggle.zones,
        fun z q hq => (hback z q (hshrink z q hq)).1, ?_⟩
      intro z hz hmem
      rcases List.mem_cons.1 hz with rfl | hz
      · exact (hback z p (hshrink z p hmem)).2 ⟨rfl, rfl⟩
      · exact hgone z hz hmem
    · rw [if_neg hp]
      obtain ⟨ht', hb', hzones, hshrink, hgone⟩ := ih hrest ht hb
      refine ⟨ht', hb', hzones, hshrink, ?_⟩
      intro z hz hmem
      rcases List.mem_cons.1 hz with rfl | hz
      · exact hp (hshrink z p hmem)
      · exact hgone z hz hmem

theorem override_congr (h : s'.server.replication.replicationVisibility =
    s.server.replication.replicationVisibility) (z : Zone T) (q : Int) :
    s'.override z q = s.override z q := by
  rw [override, override, h]

theorem get2?_setVisibility (r : ReplicationService N) (node n : N) (v : Bool) {q : Int}
    (hq : q ≠ 1) : (r.setVisibility T node v).replicationVisibility.get2? n q =
      r.replicationVisibility.get2? n q := by
  cases hcan : r.canRegister T node with
  | false =>
    simp only [ReplicationService.setVisibility, ReplicationService.changeVisibility, hcan,
      Bool.not_false, ↓reduceIte]
  | true =>
    have hset := ReplicationService.get2?_changeVisibility hcan r.clients 1 v 1 n hq
    rw [ReplicationService.setVisibility, hset, if_neg (fun h => hq h.2)]

theorem replicationVisibility_peerConnected (r : ReplicationService N) (p : Int) :
    (r.peerConnected T p).replicationVisibility = r.replicationVisibility := by
  by_cases hp : p ∈ r.peers
  · rw [ReplicationService.peerConnected, if_pos hp]
  · obtain ⟨mid, added, hqd, _, hrun⟩ := ReplicationService.peerConnected_run T hp
    obtain ⟨ms, hframe, _⟩ := ReplicationService.updateVisibility_frame T mid p added []
    rw [hrun, hframe]
    exact hqd.visibility

theorem override_forgotten (p : Int) (z : Zone T) (q : Int) :
    (s.forgotten p).override z q = if q = p then none else s.override z q := by
  simp only [override, forgotten, ReplicationService.peerDisconnected, Dict.get2?,
    Dict.get?_mapValues]
  cases s.server.replication.replicationVisibility.get? z.1 with
  | none => simp only [Option.map_none, Option.bind_none, ite_self]
  | some entry => exact Dict.get?_erase entry

theorem tidy_congr (ht : s.Tidy) (hold : s'.oldInterest = s.oldInterest)
    (hinterest : s'.server.interest = s.server.interest)
    (hzones : s'.server.zones = s.server.zones)
    (hqueued : s'.server.queuedForDeletion = s.server.queuedForDeletion)
    (hover : ∀ z q, q ≠ 1 → s'.override z q = some true → s.override z q = some true) :
    s'.Tidy := by
  refine ⟨?_, ?_, ?_, ?_, ?_⟩
  · rw [hold, hinterest]
    exact ht.old
  · rw [hinterest]
    exact ht.nodup
  · rw [hzones]
    exact ht.distinct
  · rw [hzones, hqueued]
    exact ht.live
  · intro z hz hq
    rw [hzones] at hz
    rw [hqueued] at hq
    rw [hinterest]
    exact ⟨(ht.unmade z hz hq).1, fun q hq1 h => (ht.unmade z hz hq).2 q hq1 (hover z q hq1 h)⟩

theorem peerDisconnected_spec (p : Int) (ht : s.Tidy) (hb : s.Balanced) :
    (s.peerDisconnected p).Tidy ∧ (s.peerDisconnected p).Balanced := by
  simp only [peerDisconnected]
  split
  · exact ⟨ht, hb⟩
  · have ht' : (s.forgotten p).Tidy := by
      refine tidy_congr ht rfl rfl rfl rfl (fun z q _ h => ?_)
      rw [override_forgotten] at h
      split at h
      · cases h
      · exact h
    have hb' : (s.forgotten p).BalancedBut (some p) := by
      refine ⟨?_, ?_, hb.paired⟩
      · intro z hz q hq hdep hmem
        rw [override_forgotten, if_neg (fun he => hdep (congrArg some he))]
        exact (hb.agree z hz q hq).1 hmem
      · intro z hz q hq h
        rw [override_forgotten] at h
        split at h
        · cases h
        · exact (hb.agree z hz q hq).2 h
    obtain ⟨ht'', hb'', hzones, _, hgone⟩ :=
      clearInterestIn_spec p (s.forgotten p).server.zones (fun _ h => h) ht' hb'
    constructor
    · exact tidy_congr ht'' rfl rfl rfl rfl (fun _ _ _ h => h)
    · refine ⟨fun z hz q hq => ⟨fun hmem => ?_, hb''.hidden z hz q hq⟩, hb''.paired⟩
      apply hb''.granted z hz q hq _ hmem
      intro he
      rw [Option.some.inj he] at hmem
      change z ∈ (clearInterestIn p (s.forgotten p).server.zones (s.forgotten p)).server.zones at hz
      rw [hzones] at hz
      exact hgone z hz hmem

/-- From one state to the other, a zone becomes live in which nobody is. -/
structure Opens (s s' : InterestServer T) (zone : Zone T) : Prop where
  zones : s'.server.zones = s.server.zones ++ [zone]
  queued : s'.server.queuedForDeletion = s.server.queuedForDeletion
  old : ∀ z, s'.oldInterest z = s'.server.interest z
  interest : ∀ z, s'.server.interest z = s.server.interest z
  override : ∀ z q, q ≠ 1 → s'.override z q = s.override z q
  history : ∀ z q, s'.history z q = s.history z q

theorem addZone_opens (zone : Zone T) (scene : N) (ht : s.Tidy)
    (hzone : zone ∉ s.server.zones) (hvalid : zone ∉ s.server.queuedForDeletion) :
    Opens s (s.addZone zone scene) zone := by
  have hnew : ¬ (s.server.hasZone zone || !s.server.isZoneValid zone) = true := by
    rw [made_iff, not_or]
    exact ⟨hzone, hvalid⟩
  obtain ⟨hnone, _⟩ := ht.unmade zone hzone hvalid
  obtain ⟨t, hadd⟩ : ∃ t : InterestServer T, t = { s with
    server := s.server.addZone zone scene
    oldInterest := Function.update s.oldInterest zone [] } := ⟨_, rfl⟩
  have hserver : t.server = { s.server with
      zones := s.server.zones ++ [zone]
      interest := Function.update s.server.interest zone []
      replication :=
        (s.server.replication.setVisibility T zone false).setVisibility T scene true } := by
    rw [hadd]
    simp only [ZoneServer.addZone, if_neg hzone]
  have hinterest (z : Zone T) : t.server.interest z = s.server.interest z := by
    rw [hserver]
    change Function.update s.server.interest zone [] z = _
    rw [← hnone, Function.update_eq_self]
  simp only [addZone, if_neg hnew, ← hadd]
  apply Opens.mk
  · rw [hserver]
  · rw [hserver]
  · intro z
    rw [hinterest, hadd]
    change Function.update s.oldInterest zone [] z = _
    rw [← hnone, ← ht.old, Function.update_eq_self, ht.old]
  · exact hinterest
  · intro z q hq
    rw [override, hserver, override]
    simp only [get2?_setVisibility _ _ _ _ hq]
  · intro z q
    rw [hadd, history, history]

theorem Opens.tidy (h : Opens s s' zone) (ht : s.Tidy) (hzone : zone ∉ s.server.zones)
    (hvalid : zone ∉ s.server.queuedForDeletion) : s'.Tidy := by
  apply Tidy.mk
  · exact h.old
  · intro z
    rw [h.interest]
    exact ht.nodup z
  · rw [h.zones, List.nodup_append]
    refine ⟨ht.distinct, List.nodup_singleton zone, fun z hz z' hz' he => ?_⟩
    rw [List.mem_singleton.1 hz'] at he
    exact hzone (he ▸ hz)
  · intro z hz
    rw [h.queued]
    rw [h.zones, List.mem_append, List.mem_singleton] at hz
    rcases hz with hz | rfl
    · exact ht.live z hz
    · exact hvalid
  · intro z hz hq
    rw [h.queued] at hq
    rw [h.zones, List.mem_append, not_or] at hz
    obtain ⟨hnone, hover⟩ := ht.unmade z hz.1 hq
    rw [h.interest]
    refine ⟨hnone, fun q hq1 => ?_⟩
    rw [h.override z q hq1]
    exact hover q hq1

theorem Opens.balanced (h : Opens s s' zone) (ht : s.Tidy) (hb : s.Balanced)
    (hzone : zone ∉ s.server.zones) (hvalid : zone ∉ s.server.queuedForDeletion) :
    s'.Balanced := by
  obtain ⟨hnone, hover⟩ := ht.unmade zone hzone hvalid
  apply Balanced.mk
  · intro z hz q hq
    rw [h.interest, h.override z q hq]
    rw [h.zones, List.mem_append, List.mem_singleton] at hz
    rcases hz with hz | rfl
    · exact hb.agree z hz q hq
    · rw [hnone]
      exact iff_of_false List.not_mem_nil (hover q hq)
  · intro z q
    have hmem : (z ∈ s'.server.zones ∧ q ∈ s'.server.interest z) ↔
        z ∈ s.server.zones ∧ q ∈ s.server.interest z := by
      rw [h.zones, h.interest, List.mem_append, List.mem_singleton]
      constructor
      · rintro ⟨hz | rfl, hq⟩
        · exact ⟨hz, hq⟩
        · rw [hnone] at hq
          cases hq
      · rintro ⟨hz, hq⟩
        exact ⟨.inl hz, hq⟩
    simp only [h.history, hmem]
    exact hb.paired z q

theorem addZone_spec (zone : Zone T) (scene : N) (ht : s.Tidy) (hb : s.Balanced) :
    (s.addZone zone scene).Tidy ∧ (s.addZone zone scene).Balanced := by
  by_cases hmade : (s.server.hasZone zone || !s.server.isZoneValid zone) = true
  · simp only [addZone, if_pos hmade]
    exact ⟨ht, hb⟩
  · have hnew := hmade
    rw [made_iff, not_or] at hnew
    have hopens := addZone_opens zone scene ht hnew.1 hnew.2
    exact ⟨hopens.tidy ht hnew.1 hnew.2, hopens.balanced ht hb hnew.1 hnew.2⟩

/-- A zone is no longer live. -/
def retire (s : InterestServer T) (zone : Zone T) : InterestServer T :=
  { s with server := { s.server with
      zones := s.server.zones.erase zone
      queuedForDeletion := s.server.queuedForDeletion ++ [zone] } }

theorem mem_retire (ht : s.Tidy) (zone z : Zone T) :
    z ∈ (s.retire zone).server.zones ↔ z ≠ zone ∧ z ∈ s.server.zones :=
  ht.distinct.mem_erase_iff

theorem retire_tidy (ht : s.Tidy) (zone : Zone T) : (s.retire zone).Tidy := by
  refine ⟨ht.old, ht.nodup, ht.distinct.erase zone, ?_, ?_⟩
  · intro z hz hq
    obtain ⟨hne, hz⟩ := (mem_retire ht zone z).1 hz
    rcases List.mem_append.1 hq with hq | hq
    · exact ht.live z hz hq
    · exact hne (List.mem_singleton.1 hq)
  · intro z hz hq
    have hnew : z ∉ s.server.queuedForDeletion ∧ z ∉ [zone] :=
      not_or.1 (fun h => hq (List.mem_append.2 h))
    apply ht.unmade z _ hnew.1
    intro hold
    exact hz ((mem_retire ht zone z).2 ⟨fun he => hnew.2 (List.mem_singleton.2 he), hold⟩)

/-- Whoever is still in the interest of a zone that is retired is never told to be out of it. -/
theorem retire_balanced_iff (ht : s.Tidy) (hb : s.Balanced) (hzone : zone ∈ s.server.zones) :
    (s.retire zone).Balanced ↔ s.server.interest zone = [] := by
  constructor
  · intro h
    rw [List.eq_nil_iff_forall_not_mem]
    intro q hq
    obtain ⟨k, hk⟩ := hb.paired zone q
    obtain ⟨k', hk'⟩ := h.paired zone q
    have hgone : ¬ (zone ∈ (s.retire zone).server.zones ∧
        q ∈ (s.retire zone).server.interest zone) :=
      fun hc => ((mem_retire ht zone zone).1 hc.1).1 rfl
    rw [if_neg hgone, List.append_nil] at hk'
    rw [if_pos ⟨hzone, hq⟩] at hk
    change s.history zone q = _ at hk'
    have hlen := congrArg List.length (hk.symm.trans hk')
    rw [List.length_append, length_pairs, length_pairs, List.length_singleton] at hlen
    omega
  · intro hnone
    refine ⟨fun z hz => hb.agree z ((mem_retire ht zone z).1 hz).2, fun z q => ?_⟩
    have hsame : (z ∈ (s.retire zone).server.zones ∧ q ∈ (s.retire zone).server.interest z) ↔
        z ∈ s.server.zones ∧ q ∈ s.server.interest z := by
      rw [mem_retire ht]
      constructor
      · rintro ⟨⟨_, hz⟩, hq⟩
        exact ⟨hz, hq⟩
      · rintro ⟨hz, hq⟩
        refine ⟨⟨?_, hz⟩, hq⟩
        intro he
        rw [he, hnone] at hq
        cases hq
    simp only [hsame]
    exact hb.paired z q

/-- When a peer leaves the interest of a zone, nobody is left if there was no other. -/
theorem Toggles.interest_eq_nil_iff (h : Toggles s s' zone p false)
    (hi : s.server.interest zone = p :: rest) (hnodup : (p :: rest).Nodup) :
    s'.server.interest zone = [] ↔ rest = [] := by
  simp only [List.eq_nil_iff_forall_not_mem, h.interest, hi]
  constructor
  · intro hleft q hq
    have hne : q ≠ p := fun he => (List.nodup_cons.1 hnodup).1 (he ▸ hq)
    apply hleft q
    rw [if_neg (fun hc => hne hc.2)]
    exact List.mem_cons_of_mem _ hq
  · intro hrest q hq
    split at hq
    · cases hq
    · next hc =>
      rcases List.mem_cons.1 hq with he | hq
      · exact hc ⟨trivial, he⟩
      · exact hrest q hq

theorem removeZone_spec (zone : Zone T) (ht : s.Tidy) (hb : s.Balanced) :
    (s.removeZone zone).Tidy ∧
      ((s.removeZone zone).Balanced ↔ s.Admits (.removeZone zone)) := by
  by_cases hzone : zone ∈ s.server.zones
  · have hrun : s.removeZone zone = (match s.server.interest zone with
        | [] => s
        | peer :: _ => s.removeInterest peer zone).retire zone := by
      simp only [removeZone, (hasZone_iff _).2 hzone, Bool.not_true, Bool.false_eq_true, ↓reduceIte]
      rfl
    simp only [Admits, hzone, forall_const]
    rw [hrun]
    cases hi : s.server.interest zone with
    | nil =>
      have hretired := (retire_balanced_iff ht hb hzone).2 hi
      exact ⟨retire_tidy ht zone, iff_of_true hretired (Nat.zero_le 1)⟩
    | cons p rest =>
      have hp : p ∈ s.server.interest zone := by
        rw [hi]
        exact List.mem_cons_self
      have htoggle := removeInterest_toggles ht (ht.live zone hzone) hp
      have ht' := htoggle.tidy ht (.inl hzone)
      have hb' := balanced_iff.2
        (htoggle.balancedBut (balanced_iff.1 hb) hzone (iff_of_true hp rfl))
      have hzone' : zone ∈ (s.removeInterest p zone).server.zones := by
        rw [htoggle.zones]
        exact hzone
      refine ⟨retire_tidy ht' zone, (retire_balanced_iff ht' hb' hzone').trans ?_⟩
      have hnodup := ht.nodup zone
      rw [hi] at hnodup
      rw [htoggle.interest_eq_nil_iff hi hnodup, List.length_cons, ← List.length_eq_zero_iff]
      omega
  · have hno : s.server.hasZone zone = false := decide_eq_false hzone
    simp only [removeZone, hno, Bool.not_false, ↓reduceIte]
    exact ⟨ht, iff_of_true hb (fun h => absurd h hzone)⟩

theorem step_spec (ht : s.Tidy) (hb : s.Balanced) (event : InterestEvent T) :
    (s.step event).Tidy ∧ ((s.step event).Balanced ↔ s.Admits event) := by
  have hkeep {t : InterestServer T} (h : t.Tidy ∧ t.Balanced) : t.Tidy ∧ (t.Balanced ↔ True) :=
    ⟨h.1, iff_true_intro h.2⟩
  cases event with
  | addZone zone scene => exact hkeep (addZone_spec zone scene ht hb)
  | addInterest p zone =>
    apply hkeep
    simp only [step]
    split
    · next hmade =>
      rw [made_iff] at hmade
      by_cases hvalid : zone ∈ s.server.queuedForDeletion
      · have hz : s.server.isZoneValid zone = false := decide_eq_false (not_not_intro hvalid)
        simp only [addInterest, hz, Bool.not_false, ↓reduceIte]
        exact ⟨ht, hb⟩
      · have hzone := hmade.resolve_right hvalid
        by_cases hp : p ∈ s.server.interest zone
        · have hz : s.server.isZoneValid zone = true := decide_eq_true hvalid
          simp only [addInterest, hz, hp, Bool.not_true, Bool.false_eq_true, ↓reduceIte]
          exact ⟨ht, hb⟩
        · have htoggle := addInterest_toggles ht hvalid hp
          refine ⟨htoggle.tidy ht hmade, balanced_iff.2 ?_⟩
          exact htoggle.balancedBut (balanced_iff.1 hb) hzone (iff_of_false hp Bool.noConfusion)
    · exact ⟨ht, hb⟩
  | removeInterest p zone =>
    apply hkeep
    simp only [step]
    rcases removeInterest_cases ht p zone with ⟨hzone, hp, htoggle⟩ | ⟨_, hsame⟩
    · refine ⟨htoggle.tidy ht (.inl hzone), balanced_iff.2 ?_⟩
      exact htoggle.balancedBut (balanced_iff.1 hb) hzone (iff_of_true hp rfl)
    · rw [hsame]
      exact ⟨ht, hb⟩
  | clearPeerInterest p =>
    apply hkeep
    obtain ⟨ht', hb', _⟩ :=
      clearInterestIn_spec p s.server.zones (fun _ h => h) ht (balanced_iff.1 hb)
    exact ⟨ht', balanced_iff.2 hb'⟩
  | removeZone zone => exact removeZone_spec zone ht hb
  | connect p =>
    apply hkeep
    have hover (z : Zone T) (q : Int) : (s.peerConnected p).override z q = s.override z q :=
      override_congr (replicationVisibility_peerConnected _ p) z q
    refine ⟨tidy_congr ht rfl rfl rfl rfl (fun z q _ h => hover z q ▸ h), ?_, hb.paired⟩
    intro z hz q hq
    change q ∈ s.server.interest z ↔ (s.peerConnected p).override z q = _
    rw [hover]
    exact hb.agree z hz q hq
  | disconnect p => exact hkeep (peerDisconnected_spec p ht hb)

theorem tidy_start : (start : InterestServer T).Tidy := by
  refine ⟨fun _ => rfl, fun _ => List.nodup_nil, List.nodup_nil, fun _ hz => ?_, fun z _ _ => ?_⟩
  · cases hz
  · refine ⟨rfl, fun q _ h => ?_⟩
    cases h

theorem balanced_start : (start : InterestServer T).Balanced := by
  refine ⟨fun _ hz => ?_, fun _ _ => ⟨0, ?_⟩⟩
  · cases hz
  · rw [if_neg (fun h => by cases h.1)]
    rfl

/-- The interest of zones is balanced throughout exactly if every zone that is removed has at most
one peer in its interest. -/
theorem balanced_iff_guarded (T : ServerTree S N) (events : List (InterestEvent T)) :
    Runs.Always step Balanced start events ↔ Runs.Guarded step Admits start events :=
  Runs.always_iff_guarded (I := Tidy) (fun _ event ht hb _ => (step_spec ht hb event).1)
    (fun _ event ht hb => (step_spec ht hb event).2) tidy_start balanced_start

/-- A zone with two peers in its interest is removed, and only the first is told out of it. -/
theorem second_peer_never_removed :
    ¬ Runs.Always step Balanced (start : InterestServer ZoneServer.zoneTree)
      [.addZone ZoneServer.smallZone .actor, .addInterest 2 ZoneServer.smallZone,
        .addInterest 3 ZoneServer.smallZone, .removeZone ZoneServer.smallZone] := by
  intro h
  obtain ⟨k, hk⟩ := h.last.paired ZoneServer.smallZone 3
  obtain ⟨s, hs⟩ : ∃ s, s = Runs.run step (start : InterestServer ZoneServer.zoneTree)
    [.addZone ZoneServer.smallZone .actor, .addInterest 2 ZoneServer.smallZone,
      .addInterest 3 ZoneServer.smallZone, .removeZone ZoneServer.smallZone] := ⟨_, rfl⟩
  have hhistory : s.history ZoneServer.smallZone 3 = [true] := by
    rw [hs]
    decide +kernel
  have hgone : ZoneServer.smallZone ∉ s.server.zones := by
    rw [hs]
    decide +kernel
  rw [← hs, hhistory, if_neg (fun hc => hgone hc.1), List.append_nil] at hk
  have hlen := congrArg List.length hk
  rw [length_pairs, List.length_singleton] at hlen
  omega

end InterestServer

end Godaemon
