import Godaemon.Lib.Runs
import Godaemon.Nodes.ServiceChannels

namespace Godaemon
set_option autoImplicit true

def maxEnetChannels : Int := 253

inductive MultiplayerRoot.ConnectionConfig where
  | none
  | enet
  | steam
  deriving DecidableEq

inductive MultiplayerRoot.ConnectionState where
  | disconnected
  | waiting
  | authenticating
  | timeout
  | authTimeout
  | connected
  deriving DecidableEq

/-- Where `start_multi_connect` is, with the attempts that are left: before an attempt has a peer,
or awaiting its end. -/
inductive MultiConnectPhase where
  | idle
  | creating (attempts : Int)
  | awaiting (attempts : Int)
  deriving DecidableEq

/-- A client's root, with the attempts that the last call of `start_multi_connect` was asked for
and has made, and what it has returned. -/
structure ClientRoot extends MultiplayerRoot where
  connectionConfig : MultiplayerRoot.ConnectionConfig
  connectionState : MultiplayerRoot.ConnectionState
  currentlyMultiConnecting : Bool
  phase : MultiConnectPhase
  requested : Int
  made : Nat
  returned : Option Bool

/-- What comes of creating a peer. What listens to `connection_failed` may end multi-connecting. -/
structure PeerCreation where
  steamActive : Bool
  error : Bool
  disconnected : Bool
  ends : Bool

inductive ClientRootEvent where
  | configureEnet
  | configureSteam
  | startMultiConnect (attempts : Int)
  | createPeer (creation : PeerCreation)
  | connectedToServer
  | serverDisconnected (ends : Bool)
  | connectionFailed (ends : Bool)
  | timeout (ends : Bool)
  | peerAuthenticating (id : Int)
  | peerAuthenticationFailed (id : Int) (ends : Bool)
  | endMultiConnect
  | endConnection

namespace ClientRoot

def endMultiConnect (s : ClientRoot) : ClientRoot := { s with currentlyMultiConnecting := false }

def emitConnectionFailed (s : ClientRoot) (ends : Bool) : ClientRoot :=
  if ends then s.endMultiConnect else s

/-- The loop of `start_multi_connect` after an attempt without success. -/
def attemptFailed (s : ClientRoot) (attempts : Int) : ClientRoot :=
  if !s.currentlyMultiConnecting then { s with phase := .idle, returned := some false }
  else if attempts - 1 = 0 then { s.endMultiConnect with phase := .idle, returned := some false }
  else { s with phase := .creating (attempts - 1), made := s.made + 1 }

/-- An attempt up to where it awaits its end. Without a configuration an assertion fails. -/
def startConnection (s : ClientRoot) (attempts : Int) (creation : PeerCreation) : ClientRoot :=
  if s.connectionConfig = .none then s.attemptFailed attempts
  else if s.connectionState ∈ [.waiting, .authenticating, .connected] then s.attemptFailed attempts
  else
    let s := { s with connectionState := .disconnected }
    if s.connectionConfig = .steam ∧ creation.steamActive = false then s.attemptFailed attempts
    else if s.connectionConfig ≠ .steam ∧ s.getTotalChannelCount > maxEnetChannels then
      s.attemptFailed attempts
    else if creation.error then (s.emitConnectionFailed creation.ends).attemptFailed attempts
    else if creation.disconnected then
      (s.emitConnectionFailed creation.ends).attemptFailed attempts
    else { s with connectionState := .waiting, phase := .awaiting attempts }

/-- The end that an attempt awaits, and the rest of it. -/
def connectAwaitResult (s : ClientRoot) (attempts : Int)
    (state : MultiplayerRoot.ConnectionState) (ends : Bool) : ClientRoot :=
  let s := { s with connectionState := state }
  if state = .connected then
    { s with currentlyMultiConnecting := false, phase := .idle, returned := some true }
  else (s.emitConnectionFailed ends).attemptFailed attempts

/-- The assertion of `start_multi_connect`, and its way to the first attempt. -/
def startMultiConnect (s : ClientRoot) (attempts : Int) : ClientRoot :=
  if s.connectionState ≠ .disconnected then s
  else if s.currentlyMultiConnecting then { s with returned := some false }
  else if attempts = 0 then
    { s with requested := attempts, made := 0, returned := some false }
  else
    { s with
      currentlyMultiConnecting := true
      phase := .creating attempts
      requested := attempts
      made := 1
      returned := none }

def endConnection (s : ClientRoot) : ClientRoot :=
  if s.connectionState ≠ .connected then s else { s with connectionState := .disconnected }

/-- What is called from outside. -/
def call (s : ClientRoot) : ClientRootEvent → ClientRoot
  | .configureEnet => { s with connectionConfig := .enet }
  | .configureSteam => { s with connectionConfig := .steam }
  | .startMultiConnect attempts => s.startMultiConnect attempts
  | .endMultiConnect => s.endMultiConnect
  | .endConnection => s.endConnection
  | _ => s

/-- Until an attempt has its peer nothing else runs; then it listens to the engine's signals, which
are disconnected when it ends. -/
def step (s : ClientRoot) (event : ClientRootEvent) : ClientRoot :=
  match s.phase with
  | .idle => s.call event
  | .creating attempts =>
    match event with
    | .createPeer creation => s.startConnection attempts creation
    | _ => s
  | .awaiting attempts =>
    match event with
    | .connectedToServer => s.connectAwaitResult attempts .connected false
    | .serverDisconnected ends => s.connectAwaitResult attempts .disconnected ends
    | .connectionFailed ends => s.connectAwaitResult attempts .disconnected ends
    | .timeout ends =>
      if s.connectionState = .authenticating then s
      else s.connectAwaitResult attempts .timeout ends
    | .peerAuthenticating id =>
      if id = 1 then { s with connectionState := .authenticating } else s
    | .peerAuthenticationFailed id ends =>
      if id = 1 then s.connectAwaitResult attempts .authTimeout ends else s
    | event => s.call event

def start (root : MultiplayerRoot) (connectionConfig : MultiplayerRoot.ConnectionConfig) :
    ClientRoot :=
  { root with
    connectionConfig := connectionConfig
    connectionState := .disconnected
    currentlyMultiConnecting := false
    phase := .idle
    requested := 0
    made := 0
    returned := none }

/-- No more attempts have been made than asked for, and once the call has returned false none is in
progress and another call passes its assertion and makes an attempt. -/
structure Restartable (s : ClientRoot) : Prop where
  bounded : 0 ≤ s.requested → (s.made : Int) ≤ s.requested
  restarts : s.returned = some false → s.phase = .idle ∧ s.connectionState = .disconnected ∧
    ∀ attempts, attempts ≠ 0 → (s.step (.startMultiConnect attempts)).phase = .creating attempts

/-- Another attempt follows, if this one fails. -/
def GoesOn (s : ClientRoot) (attempts : Int) (ends : Bool) : Prop :=
  attempts ≠ 1 ∧ s.currentlyMultiConnecting = true ∧ ends = false

/-- An attempt that times out, or that is not authenticated, is not the last one of its call. -/
def EndsDisconnected (s : ClientRoot) : ClientRootEvent → Prop
  | .timeout ends => ∀ attempts, s.phase = .awaiting attempts →
    s.connectionState ≠ .authenticating → s.GoesOn attempts ends
  | .peerAuthenticationFailed id ends => ∀ attempts, s.phase = .awaiting attempts →
    id = 1 → s.GoesOn attempts ends
  | _ => True

/-- In an attempt: what is left of the attempts, and what has been made of them. -/
structure Attempting (s : ClientRoot) (attempts : Int) : Prop where
  ne_zero : attempts ≠ 0
  requested : s.requested = attempts + s.made - 1
  pos : 0 ≤ s.requested → 0 < attempts
  returned : s.returned = none

/-- What every run keeps to. -/
def Invariant (s : ClientRoot) : Prop :=
  (s.connectionConfig = .none → s.connectionState = .disconnected) ∧
  match s.phase with
  | .idle => s.currentlyMultiConnecting = false ∧ (0 ≤ s.requested → (s.made : Int) ≤ s.requested)
  | .creating attempts => s.Attempting attempts ∧
    s.connectionState ∉ [.waiting, .authenticating, .connected]
  | .awaiting attempts => s.Attempting attempts ∧
    s.connectionState ∈ [.waiting, .authenticating]

variable {s : ClientRoot} {attempts : Int}

theorem Attempting.bounded (h : s.Attempting attempts) (hr : 0 ≤ s.requested) :
    (s.made : Int) ≤ s.requested := by
  have hpos := h.pos hr
  have hrequested := h.requested
  omega

theorem Attempting.congr {t : ClientRoot} (h : s.Attempting attempts)
    (hrequested : t.requested = s.requested) (hmade : t.made = s.made)
    (hreturned : t.returned = s.returned) : t.Attempting attempts := by
  refine ⟨h.ne_zero, ?_, fun hpos => h.pos (hrequested ▸ hpos), hreturned.trans h.returned⟩
  rw [hrequested, hmade, h.requested]

theorem restartable_iff_of_idle (hphase : s.phase = .idle)
    (hflag : s.currentlyMultiConnecting = false)
    (hbounded : 0 ≤ s.requested → (s.made : Int) ≤ s.requested) :
    s.Restartable ↔ (s.returned = some false → s.connectionState = .disconnected) := by
  refine ⟨fun h hr => (h.restarts hr).2.1, fun h => ⟨hbounded, fun hr => ⟨hphase, h hr, ?_⟩⟩⟩
  intro attempts hne
  simp only [step, hphase, call, startMultiConnect, h hr, ne_eq, not_true_eq_false, ↓reduceIte,
    hflag, Bool.false_eq_true, hne]

theorem restartable_of_attempting (h : s.Attempting attempts) : s.Restartable := by
  refine ⟨h.bounded, fun hr => ?_⟩
  rw [h.returned] at hr
  cases hr

theorem returned_false_spec (hphase : s.phase = .idle)
    (hflag : s.currentlyMultiConnecting = false) (hreturned : s.returned = some false)
    (hbounded : 0 ≤ s.requested → (s.made : Int) ≤ s.requested)
    (hconfig : s.connectionConfig = .none → s.connectionState = .disconnected) :
    s.Invariant ∧ (s.Restartable ↔ s.connectionState = .disconnected) := by
  refine ⟨⟨hconfig, ?_⟩, ?_⟩
  · rw [hphase]
    exact ⟨hflag, hbounded⟩
  · rw [restartable_iff_of_idle hphase hflag hbounded]
    exact ⟨fun h => h hreturned, fun h _ => h⟩

/-- A failed attempt leaves its state behind: unless another one follows, the next call needs that
state to be the one without a connection. -/
theorem attemptFailed_spec (h : s.Attempting attempts)
    (hconfig : s.connectionConfig = .none → s.connectionState = .disconnected)
    (hstate : s.connectionState ∉ [.waiting, .authenticating, .connected]) :
    (s.attemptFailed attempts).Invariant ∧ ((s.attemptFailed attempts).Restartable ↔
      s.connectionState = .disconnected ∨
        attempts ≠ 1 ∧ s.currentlyMultiConnecting = true) := by
  unfold attemptFailed
  by_cases hflag : s.currentlyMultiConnecting = true
  · have hgoes : ¬ (!s.currentlyMultiConnecting) = true := by
      rw [hflag]
      exact Bool.false_ne_true
    rw [if_neg hgoes, and_iff_left hflag]
    by_cases hone : attempts - 1 = 0
    · have hlast : ¬ attempts ≠ 1 := by omega
      rw [if_pos hone, or_iff_left hlast]
      exact returned_false_spec rfl rfl rfl h.bounded hconfig
    · have hmore : attempts ≠ 1 := by omega
      have hnext : ({ s with phase := .creating (attempts - 1), made := s.made + 1 } :
          ClientRoot).Attempting (attempts - 1) := by
        refine ⟨hone, ?_, fun hr => ?_, h.returned⟩
        · have hrequested := h.requested
          simp only
          omega
        · have hpos := h.pos hr
          omega
      rw [if_neg hone]
      exact ⟨⟨hconfig, hnext, hstate⟩,
        iff_of_true (restartable_of_attempting hnext) (.inr hmore)⟩
  · have hflag' := Bool.eq_false_iff.2 hflag
    have hends : (!s.currentlyMultiConnecting) = true := by
      rw [hflag']
      rfl
    rw [if_pos hends, or_iff_left (fun hno => hflag hno.2)]
    exact returned_false_spec rfl hflag' rfl h.bounded hconfig

theorem emitConnectionFailed_spec (ends : Bool) (h : s.Attempting attempts) :
    (s.emitConnectionFailed ends).Attempting attempts ∧
      (s.emitConnectionFailed ends).connectionConfig = s.connectionConfig ∧
      (s.emitConnectionFailed ends).connectionState = s.connectionState ∧
      ((s.emitConnectionFailed ends).currentlyMultiConnecting = true ↔
        s.currentlyMultiConnecting = true ∧ ends = false) := by
  unfold emitConnectionFailed
  cases ends with
  | true =>
    simp only [↓reduceIte]
    refine ⟨h.congr rfl rfl rfl, rfl, rfl, ?_⟩
    exact iff_of_false Bool.false_ne_true (fun hno => Bool.noConfusion hno.2)
  | false => exact ⟨h, rfl, rfl, (and_iff_left rfl).symm⟩

theorem startConnection_spec (h : s.Attempting attempts)
    (hconfig : s.connectionConfig = .none → s.connectionState = .disconnected)
    (hstate : s.connectionState ∉ [.waiting, .authenticating, .connected])
    (creation : PeerCreation) :
    (s.startConnection attempts creation).Invariant ∧
      (s.startConnection attempts creation).Restartable := by
  have hfails {t : ClientRoot} (ht : t.Attempting attempts)
      (hdown : t.connectionState = .disconnected) :
      (t.attemptFailed attempts).Invariant ∧ (t.attemptFailed attempts).Restartable := by
    have hup : t.connectionState ∉ [.waiting, .authenticating, .connected] := by
      rw [hdown]
      decide
    obtain ⟨hinv, hiff⟩ := attemptFailed_spec ht (fun _ => hdown) hup
    exact ⟨hinv, hiff.2 (.inl hdown)⟩
  have hdown : ({ s with connectionState := .disconnected } : ClientRoot).Attempting attempts :=
    h.congr rfl rfl rfl
  obtain ⟨hemitted, _, hsame, _⟩ := emitConnectionFailed_spec creation.ends hdown
  unfold startConnection
  by_cases hnone : s.connectionConfig = .none
  · rw [if_pos hnone]
    exact hfails h (hconfig hnone)
  · rw [if_neg hnone, if_neg hstate]
    simp only
    split
    · exact hfails hdown rfl
    · split
      · exact hfails hdown rfl
      · split
        · exact hfails hemitted hsame
        · split
          · exact hfails hemitted hsame
          · have hwaits : ({ s with connectionState := .waiting, phase := .awaiting attempts } :
                ClientRoot).Attempting attempts := h.congr rfl rfl rfl
            refine ⟨⟨fun hno => absurd hno hnone, hwaits, ?_⟩, restartable_of_attempting hwaits⟩
            exact List.mem_cons_self

/-- What the end of an attempt leaves can be started from again if it is the state without a
connection, or if another attempt follows, which resets it. -/
theorem connectAwaitResult_spec (h : s.Attempting attempts) (hconfig : s.connectionConfig ≠ .none)
    (state : MultiplayerRoot.ConnectionState)
    (hstate : state ∉ [.waiting, .authenticating, .connected]) (ends : Bool) :
    (s.connectAwaitResult attempts state ends).Invariant ∧
      ((s.connectAwaitResult attempts state ends).Restartable ↔
        state = .disconnected ∨ s.GoesOn attempts ends) := by
  have hstart : ({ s with connectionState := state } : ClientRoot).Attempting attempts :=
    h.congr rfl rfl rfl
  obtain ⟨hemitted, hsame, hdown, hflag⟩ := emitConnectionFailed_spec ends hstart
  have hne : state ≠ .connected := by
    rintro rfl
    exact hstate (by decide)
  obtain ⟨hinv, hiff⟩ := attemptFailed_spec hemitted
    (fun hno => absurd (hsame.symm.trans hno) hconfig) (hdown ▸ hstate)
  unfold connectAwaitResult
  rw [if_neg hne]
  refine ⟨hinv, hiff.trans ?_⟩
  rw [hdown, hflag]
  exact Iff.rfl

theorem awaiting_spec (h : s.Attempting attempts) (hphase : s.phase = .awaiting attempts)
    (hstate : s.connectionState ∈ [.waiting, .authenticating])
    (hconfig : s.connectionConfig ≠ .none) : s.Invariant ∧ s.Restartable := by
  refine ⟨⟨fun hno => absurd hno hconfig, ?_⟩, restartable_of_attempting h⟩
  rw [hphase]
  exact ⟨h, hstate⟩

theorem call_of_awaiting (h : s.Attempting attempts) (hphase : s.phase = .awaiting attempts)
    (hstate : s.connectionState ∈ [.waiting, .authenticating])
    (hconfig : s.connectionConfig ≠ .none) (event : ClientRootEvent) :
    (s.call event).Invariant ∧ (s.call event).Restartable := by
  have hself := awaiting_spec h hphase hstate hconfig
  have hother (state : MultiplayerRoot.ConnectionState)
      (hno : state ∉ [.waiting, .authenticating]) : s.connectionState ≠ state := by
    intro he
    exact hno (he ▸ hstate)
  cases event with
  | configureEnet =>
    exact awaiting_spec (h.congr rfl rfl rfl) hphase hstate (fun hno => by cases hno)
  | configureSteam =>
    exact awaiting_spec (h.congr rfl rfl rfl) hphase hstate (fun hno => by cases hno)
  | startMultiConnect n =>
    rw [call, startMultiConnect, if_pos (hother .disconnected (by decide))]
    exact hself
  | endMultiConnect => exact awaiting_spec (h.congr rfl rfl rfl) hphase hstate hconfig
  | endConnection =>
    rw [call, endConnection, if_pos (hother .connected (by decide))]
    exact hself
  | _ => exact hself

theorem attempting_of_first (hne : attempts ≠ 0) (hrequested : s.requested = attempts)
    (hmade : s.made = 1) (hreturned : s.returned = none) : s.Attempting attempts := by
  refine ⟨hne, ?_, fun hpos => ?_, hreturned⟩
  · rw [hrequested, hmade]
    omega
  · rw [hrequested] at hpos
    exact lt_of_le_of_ne hpos (Ne.symm hne)

theorem call_of_idle (h : s.Invariant) (hr : s.Restartable) (hphase : s.phase = .idle)
    (event : ClientRootEvent) : (s.call event).Invariant ∧ (s.call event).Restartable := by
  obtain ⟨hconfig, hidle⟩ := h
  rw [hphase] at hidle
  obtain ⟨hflag, hbounded⟩ := hidle
  have hdown := (restartable_iff_of_idle hphase hflag hbounded).1 hr
  have hkept {t : ClientRoot} (hp : t.phase = .idle) (hf : t.currentlyMultiConnecting = false)
      (hq : t.requested = s.requested) (hm : t.made = s.made)
      (hc : t.connectionConfig = .none → t.connectionState = .disconnected)
      (ht : t.returned = some false → t.connectionState = .disconnected) :
      t.Invariant ∧ t.Restartable := by
    have hb : 0 ≤ t.requested → (t.made : Int) ≤ t.requested := by
      rw [hq, hm]
      exact hbounded
    refine ⟨⟨hc, ?_⟩, (restartable_iff_of_idle hp hf hb).2 ht⟩
    rw [hp]
    exact ⟨hf, hb⟩
  have hself := hkept hphase hflag rfl rfl hconfig hdown
  cases event with
  | configureEnet => exact hkept hphase hflag rfl rfl (fun hno => by cases hno) hdown
  | configureSteam => exact hkept hphase hflag rfl rfl (fun hno => by cases hno) hdown
  | startMultiConnect n =>
    have hfree : ¬ s.currentlyMultiConnecting = true := Bool.eq_false_iff.1 hflag
    rw [call, startMultiConnect]
    by_cases hstate : s.connectionState = .disconnected
    · rw [if_neg (not_not.2 hstate), if_neg hfree]
      by_cases hzero : n = 0
      · rw [if_pos hzero]
        obtain ⟨hinv, hiff⟩ := returned_false_spec (s := { s with
          requested := n, made := 0, returned := some false }) hphase hflag rfl
            (fun hn => hn) (fun _ => hstate)
        exact ⟨hinv, hiff.2 hstate⟩
      · rw [if_neg hzero]
        have hstays : s.connectionState ∉ [.waiting, .authenticating, .connected] := by
          rw [hstate]
          decide
        exact ⟨⟨fun _ => hstate, attempting_of_first hzero rfl rfl rfl, hstays⟩,
          restartable_of_attempting (attempting_of_first hzero rfl rfl rfl)⟩
    · rw [if_pos hstate]
      exact hself
  | endMultiConnect => exact hkept hphase rfl rfl rfl hconfig hdown
  | endConnection =>
    simp only [call, endConnection]
    split
    · exact hself
    · exact hkept hphase hflag rfl rfl (fun _ => rfl) (fun _ => rfl)
  | _ => exact hself

theorem step_of_creating (h : s.Invariant) (hphase : s.phase = .creating attempts)
    (event : ClientRootEvent) : (s.step event).Invariant ∧ (s.step event).Restartable := by
  have hself := h
  obtain ⟨hconfig, hcreating⟩ := h
  rw [hphase] at hcreating
  obtain ⟨hattempting, hstate⟩ := hcreating
  simp only [step, hphase]
  cases event with
  | createPeer creation => exact startConnection_spec hattempting hconfig hstate creation
  | _ => exact ⟨hself, restartable_of_attempting hattempting⟩

theorem step_of_awaiting (h : s.Invariant) (hphase : s.phase = .awaiting attempts)
    (event : ClientRootEvent) :
    (s.step event).Invariant ∧ ((s.step event).Restartable ↔ s.EndsDisconnected event) := by
  have hself := h
  obtain ⟨hconfig, hawaiting⟩ := h
  rw [hphase] at hawaiting
  obtain ⟨hattempting, hstate⟩ := hawaiting
  have hset : s.connectionConfig ≠ .none := by
    intro hno
    rw [hconfig hno] at hstate
    exact absurd hstate (by decide)
  have hends {t : ClientRoot} (ht : t.Invariant ∧ t.Restartable) :
      t.Invariant ∧ (t.Restartable ↔ True) := ⟨ht.1, iff_true_intro ht.2⟩
  have hsame : s.Invariant ∧ s.Restartable := ⟨hself, restartable_of_attempting hattempting⟩
  have hlost (ends : Bool) : (s.connectAwaitResult attempts .disconnected ends).Invariant ∧
      (s.connectAwaitResult attempts .disconnected ends).Restartable := by
    obtain ⟨hinv, hiff⟩ :=
      connectAwaitResult_spec hattempting hset .disconnected (by decide) ends
    exact ⟨hinv, hiff.2 (.inl rfl)⟩
  -- the next attempt is the only way out of a state that no call may begin in
  have hstuck (state : MultiplayerRoot.ConnectionState)
      (hleft : state ∉ [.disconnected, .waiting, .authenticating, .connected]) (ends : Bool) :
      (s.connectAwaitResult attempts state ends).Invariant ∧
        ((s.connectAwaitResult attempts state ends).Restartable ↔ s.GoesOn attempts ends) := by
    rw [List.mem_cons, not_or] at hleft
    obtain ⟨hinv, hiff⟩ := connectAwaitResult_spec hattempting hset state hleft.2 ends
    exact ⟨hinv, hiff.trans (or_iff_right hleft.1)⟩
  simp only [step, hphase]
  cases event with
  | connectedToServer =>
    have hbounded : 0 ≤ s.requested → (s.made : Int) ≤ s.requested := hattempting.bounded
    have hidle : (s.connectAwaitResult attempts .connected false).Restartable := by
      apply (restartable_iff_of_idle (s := s.connectAwaitResult attempts .connected false)
        rfl rfl hbounded).2
      intro hno
      cases hno
    exact hends ⟨⟨fun hno => absurd hno hset, rfl, hbounded⟩, hidle⟩
  | serverDisconnected ends => exact hends (hlost ends)
  | connectionFailed ends => exact hends (hlost ends)
  | timeout ends =>
    by_cases hauth : s.connectionState = .authenticating
    · simp only [hauth, ↓reduceIte]
      exact ⟨hself, iff_of_true hsame.2 (fun n _ hno => absurd hauth hno)⟩
    · simp only [hauth, ↓reduceIte]
      obtain ⟨hinv, hiff⟩ := hstuck .timeout (by decide) ends
      refine ⟨hinv, hiff.trans ⟨fun hgoes n hn _ => ?_, fun hgoes => hgoes attempts hphase hauth⟩⟩
      cases hphase.symm.trans hn
      exact hgoes
  | peerAuthenticating id =>
    by_cases hserver : id = 1
    · simp only [hserver, ↓reduceIte]
      have hnow : (.authenticating : MultiplayerRoot.ConnectionState) ∈
          [.waiting, .authenticating] := List.mem_cons_of_mem _ List.mem_cons_self
      exact hends (awaiting_spec (hattempting.congr rfl rfl rfl) rfl hnow hset)
    · simp only [hserver, ↓reduceIte]
      exact hends hsame
  | peerAuthenticationFailed id ends =>
    by_cases hserver : id = 1
    · simp only [hserver, ↓reduceIte]
      obtain ⟨hinv, hiff⟩ := hstuck .authTimeout (by decide) ends
      refine ⟨hinv, hiff.trans ⟨fun hgoes n hn _ => ?_, fun hgoes => hgoes attempts hphase rfl⟩⟩
      cases hphase.symm.trans hn
      exact hgoes
    · simp only [hserver, ↓reduceIte]
      exact ⟨hself, iff_of_true hsame.2 (fun n _ hno => absurd hno hserver)⟩
  | createPeer creation => exact hends hsame
  | _ => exact hends (call_of_awaiting hattempting hphase hstate hset _)

theorem invariant_step (h : s.Invariant) (hr : s.Restartable) (event : ClientRootEvent) :
    (s.step event).Invariant ∧ ((s.step event).Restartable ↔ s.EndsDisconnected event) := by
  have hspared (hphase : ∀ attempts, s.phase ≠ .awaiting attempts) :
      s.EndsDisconnected event := by
    cases event with
    | timeout ends => exact fun attempts hp => absurd hp (hphase attempts)
    | peerAuthenticationFailed id ends => exact fun attempts hp => absurd hp (hphase attempts)
    | _ => trivial
  cases hphase : s.phase with
  | idle =>
    obtain ⟨hinv, hrest⟩ := call_of_idle h hr hphase event
    have hother (n : Int) : s.phase ≠ .awaiting n := fun hno => by cases hphase.symm.trans hno
    simp only [step, hphase]
    exact ⟨hinv, iff_of_true hrest (hspared hother)⟩
  | creating attempts =>
    obtain ⟨hinv, hrest⟩ := step_of_creating h hphase event
    have hother (n : Int) : s.phase ≠ .awaiting n := fun hno => by cases hphase.symm.trans hno
    exact ⟨hinv, iff_of_true hrest (hspared hother)⟩
  | awaiting attempts => exact step_of_awaiting h hphase event

theorem invariant_start (root : MultiplayerRoot)
    (connectionConfig : MultiplayerRoot.ConnectionConfig) :
    (start root connectionConfig).Invariant ∧ (start root connectionConfig).Restartable := by
  have hbounded : 0 ≤ (start root connectionConfig).requested →
      ((start root connectionConfig).made : Int) ≤ (start root connectionConfig).requested :=
    fun h => h
  refine ⟨⟨fun _ => rfl, rfl, hbounded⟩, ?_⟩
  exact (restartable_iff_of_idle rfl rfl hbounded).2 (fun _ => rfl)

/-- After every failed call of `start_multi_connect` another one can be made exactly if no call
ends with an attempt that times out or that is not authenticated. -/
theorem failed_multi_connect_restarts_iff (root : MultiplayerRoot)
    (connectionConfig : MultiplayerRoot.ConnectionConfig) (events : List ClientRootEvent) :
    Runs.Always step Restartable (start root connectionConfig) events ↔
      Runs.Guarded step EndsDisconnected (start root connectionConfig) events := by
  obtain ⟨hinv, hrestartable⟩ := invariant_start root connectionConfig
  apply Runs.always_iff_guarded (I := Invariant) _ _ hinv hrestartable
  · intro s event h hr _
    exact (invariant_step h hr event).1
  · intro s event h hr
    exact (invariant_step h hr event).2

/-- One attempt is asked for, and it times out. -/
def timedOut : List ClientRootEvent :=
  [.configureEnet, .startMultiConnect 1, .createPeer ⟨false, false, false, false⟩, .timeout false]

theorem timed_out_not_restartable :
    ¬ Runs.Always step Restartable (start ⟨⟨[], true, 0⟩, .empty, 0⟩ .none) timedOut := by
  intro h
  have hdown := (h.last.restarts rfl).2.1
  cases hdown

end ClientRoot

end Godaemon
