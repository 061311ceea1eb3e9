import Godaemon.Api.Repository
import Godaemon.Lib.Runs
import Godaemon.Util.Variant

namespace Godaemon
set_option autoImplicit true

/-- What a client sends to have a node of its own replicated. -/
structure ReplicationRequest where
  parentId : Int
  uid : Int
  args : List Variant
  token : Int

/-- A node of the server: one that it has anyway, or one that it has made for a request, by their
number. -/
inductive ServerNode (N : Type) where
  | existing (node : N)
  | made (idx : Nat)
  deriving DecidableEq

/-- The callable that accepts a request, with what is bound to it. -/
structure AcceptCall (N : Type) where
  parent : ServerNode N
  request : ReplicationRequest

/-- A node that has been made, with the id that it was given. -/
structure MadeNode (N : Type) where
  call : AcceptCall N
  id : Int

/-- A call of the client that has got its token. -/
structure AskedReplication (C : Type) where
  token : Int
  node : C
  parent : C
  parentId : Int

/-- A client and the server, as far as requests go: the client's tokens and the calls that wait for
the id of a parent, the messages underway, and the server's callables and what it has made. The
history has what the client has asked for and the ids it has received. -/
structure RequestLink (C N : Type) where
  clientRepository : Repository C
  objectAwaits : List C
  queuedTokens : Dict Int C
  tokenIdx : Int
  suspended : List (C × C)
  clientFreed : List C
  toServer : List ReplicationRequest
  toClient : List (Int × Int)
  repository : Repository (ServerNode N)
  callbacks : List (AcceptCall N)
  made : List (MadeNode N)
  serverFreed : List (ServerNode N)
  asked : List (AskedReplication C)
  received : List (Int × Int)

inductive RequestEvent (C N : Type) where
  | request (node parent : C)
  | resume (idx : Nat)
  | learn (node : C) (id : Int)
  | freeClientNode (node : C)
  | deliverRequest
  | accept (idx : Nat) (insideTree : Bool)
  | addServerNode (node : N)
  | freeServerNode (node : ServerNode N)
  | deliverIds

/-- What the scripts read off a node, and what the server can load. -/
structure RequestScripts (C : Type) where
  uid : C → Option Int
  values : C → List Variant
  loads : Int → Bool

namespace RequestLink

variable {C N : Type} [DecidableEq C] [DecidableEq N] (w : RequestScripts C) (s : RequestLink C N)

/-- The rest of `request_replication`, once the parent is not waited for. Without an id for the
parent an assertion fails, and so it does without anything to load, the token being spent. -/
def submit (node parent : C) : RequestLink C N :=
  let parentId := s.clientRepository.getId parent
  if parentId = -1 ∨ node ∈ s.clientFreed then s
  else { s with
    queuedTokens := s.queuedTokens.set s.tokenIdx node
    tokenIdx := s.tokenIdx + 1
    objectAwaits := node :: s.objectAwaits
    toServer := match w.uid node with
      | some uid => s.toServer ++ [⟨parentId, uid, w.values node, s.tokenIdx⟩]
      | none => s.toServer
    asked := s.asked ++ [⟨s.tokenIdx, node, parent, parentId⟩] }

def requestReplication (node parent : C) : RequestLink C N :=
  if parent ∈ s.objectAwaits then { s with suspended := s.suspended ++ [(node, parent)] }
  else s.submit w node parent

/-- A waiting call looks again. -/
def resume (idx : Nat) : RequestLink C N :=
  match s.suspended[idx]? with
  | none => s
  | some (node, parent) =>
    if parent ∈ s.objectAwaits then s
    else { s with suspended := s.suspended.eraseIdx idx }.submit w node parent

def addClientObject (node : C) (id : Int) : RequestLink C N :=
  { s with
    clientRepository := (s.clientRepository.addObject node id).2
    objectAwaits := s.objectAwaits.filter (· ≠ node) }

def freeClientNode (node : C) : RequestLink C N :=
  { s with
    clientRepository := s.clientRepository.removeObject node
    objectAwaits := s.objectAwaits.filter (· ≠ node)
    clientFreed := node :: s.clientFreed }

/-- The server looks for the parent and for what to make, and has something validate the
request. -/
def receiveRequest (request : ReplicationRequest) : RequestLink C N :=
  let (parent, repository) := s.repository.getObject (· ∉ s.serverFreed) request.parentId
  match parent with
  | none => { s with repository := repository }
  | some parent =>
    if w.loads request.uid then
      { s with
        repository := repository
        callbacks := s.callbacks ++ [⟨parent, request⟩] }
    else { s with repository := repository }

/-- A request is accepted, at any time and any number of times. A node that does not come into the
tree gets no id. -/
def accept (idx : Nat) (insideTree : Bool) : RequestLink C N :=
  match s.callbacks[idx]? with
  | none => s
  | some call =>
    if call.parent ∈ s.serverFreed then s
    else
      let (id, repository) :=
        if insideTree then s.repository.addObject (.made s.made.length) else (-1, s.repository)
      { s with
        repository := repository
        made := s.made ++ [⟨call, id⟩]
        toClient := s.toClient ++ [(call.request.token, id)] }

/-- The client takes the id over, if it still has the token and the node. -/
def receiveIds (token id : Int) : RequestLink C N :=
  let s := { s with received := s.received ++ [(token, id)] }
  match s.queuedTokens.get? token with
  | none => s
  | some node =>
    let s := { s with queuedTokens := s.queuedTokens.erase token }
    if node ∈ s.clientFreed then s else s.addClientObject node id

def step : RequestEvent C N → RequestLink C N
  | .request node parent => s.requestReplication w node parent
  | .resume idx => s.resume w idx
  | .learn node id => s.addClientObject node id
  | .freeClientNode node => s.freeClientNode node
  | .deliverRequest =>
    match s.toServer with
    | [] => s
    | request :: rest => { s with toServer := rest }.receiveRequest w request
  | .accept idx insideTree => s.accept idx insideTree
  | .addServerNode node =>
    { s with repository := (s.repository.addObject (.existing node)).2 }
  | .freeServerNode node =>
    { s with
      repository := s.repository.removeObject node
      serverFreed := node :: s.serverFreed }
  | .deliverIds =>
    match s.toClient with
    | [] => s
    | (token, id) :: rest => { s with toClient := rest }.receiveIds token id

/-- A node that nothing has been asked for. -/
def Unasked (node : C) : Prop :=
  (∀ a ∈ s.asked, a.node ≠ node) ∧ ∀ c ∈ s.suspended, c.1 ≠ node

/-- What the callers see to: a node is asked for once, before it has an id; ids from elsewhere are
for other nodes, without an id; a request is accepted while its parent is in the tree; and the
server has ids left for its nodes. -/
def Allowed : RequestEvent C N → Prop
  | .request node _ => s.Unasked node ∧ node ∉ s.clientRepository.objectToId
  | .learn node id => s.Unasked node ∧ node ∉ s.clientRepository.objectToId ∧ 0 ≤ id
  | .freeClientNode node => node ∉ s.clientFreed
  | .accept _ insideTree => insideTree = true ∧ s.repository.CanAdd (.made s.made.length)
  | .addServerNode node => s.repository.CanAdd (.existing node) ∧ .existing node ∉ s.serverFreed
  | .freeServerNode node => ∀ idx, node = .made idx → idx < s.made.length
  | _ => True

/-- The ids that the server has sent, in order. -/
def sentIds : List (Int × Int) := s.made.map fun m => (m.call.request.token, m.id)

/-- The first of some ids that is for a token. -/
def firstId (ids : List (Int × Int)) (token : Int) : Option Int :=
  (ids.find? fun g => g.1 = token).map Prod.snd

/-- At the start nothing is asked for, waited for or underway. -/
structure Idle : Prop where
  server : s.repository.Coherent
  objectAwaits : s.objectAwaits = []
  queuedTokens : s.queuedTokens = .empty
  suspended : s.suspended = []
  toServer : s.toServer = []
  toClient : s.toClient = []
  callbacks : s.callbacks = []
  made : s.made = []
  freed : s.clientFreed = [] ∧ s.serverFreed = []
  asked : s.asked = []
  received : s.received = []
  existing : ∀ node id, s.repository.objectToId.get? node = some id → ∃ n, node = .existing n

/-- What has been asked for that a request is about. -/
def HasOrigin (r : ReplicationRequest) : Prop :=
  ∃ a ∈ s.asked, a.token = r.token ∧ a.parentId = r.parentId ∧ w.uid a.node = some r.uid

/-- What a client can count on: every call has a token of its own, a node has the id that came first
for its token, and parents keep their ids. -/
structure ClientSide : Prop where
  tokens : (s.asked.map AskedReplication.token).Nodup ∧ ∀ a ∈ s.asked, a.token < s.tokenIdx
  nodes : (s.asked.map AskedReplication.node ++ s.suspended.map Prod.fst).Nodup
  queued : ∀ token node, s.queuedTokens.get? token = some node ↔
    (∃ a ∈ s.asked, a.token = token ∧ a.node = node) ∧ token ∉ s.received.map Prod.fst
  unregistered : ∀ c ∈ s.suspended, s.clientRepository.objectToId.get? c.1 = none
  first : ∀ a ∈ s.asked, a.node ∉ s.clientFreed →
    s.clientRepository.objectToId.get? a.node = firstId s.received a.token
  parent : ∀ a ∈ s.asked, a.parent ∉ s.clientFreed →
    s.clientRepository.objectToId.get? a.parent = some a.parentId

/-- What the server can count on: what it has is there, and has its id for as long. -/
structure ServerSide : Prop where
  coherent : s.repository.Coherent
  valid : ∀ node id, s.repository.objectToId.get? node = some id → node ∉ s.serverFreed
  unmade : ∀ idx, s.made.length ≤ idx →
    s.repository.objectToId.get? (.made idx) = none ∧ .made idx ∉ s.serverFreed
  parent : ∀ call : AcceptCall N, call ∈ s.callbacks ∨ call ∈ s.made.map MadeNode.call →
    call.parent ∉ s.serverFreed →
      s.repository.objectToId.get? call.parent = some call.request.parentId
  alive : ∀ idx m, s.made[idx]? = some m → .made idx ∉ s.serverFreed →
    s.repository.objectToId.get? (.made idx) = some m.id

/-- Messages arrive in order, and what they are about has been asked for. -/
structure Underway : Prop where
  order : s.sentIds = s.received ++ s.toClient
  ids : ∀ m ∈ s.made, 0 ≤ m.id
  origin : ∀ r : ReplicationRequest, r ∈ s.toServer ∨ r ∈ s.callbacks.map AcceptCall.request ∨
    r ∈ s.made.map (fun m => m.call.request) → s.HasOrigin w r

/-- What holds in every state of a run. -/
structure Served : Prop where
  client : s.ClientSide
  server : s.ServerSide
  underway : s.Underway w

/-- Whoever accepts requests, in whatever order and however often: a node of the client has the id
that has come first for it, and none before; ids come in the order in which they were given; and
what the server makes is for a call of the client, below its own node with the id of the parent. -/
structure Answered : Prop where
  distinct : ∀ a ∈ s.asked, ∀ b ∈ s.asked, a.token = b.token ∨ a.node = b.node → a = b
  first : ∀ a ∈ s.asked, a.node ∉ s.clientFreed →
    s.clientRepository.objectToId.get? a.node = firstId s.received a.token
  order : s.sentIds = s.received ++ s.toClient
  own : ∀ idx m, s.made[idx]? = some m → ∃ a ∈ s.asked, a.token = m.call.request.token ∧
    w.uid a.node = some m.call.request.uid ∧
    (a.parent ∉ s.clientFreed →
      s.clientRepository.objectToId.get? a.parent = some m.call.request.parentId) ∧
    (m.call.parent ∉ s.serverFreed →
      s.repository.objectToId.get? m.call.parent = some m.call.request.parentId) ∧
    (.made idx ∉ s.serverFreed → s.repository.objectToId.get? (.made idx) = some m.id)

variable {w s}

theorem firstId_append (ids : List (Int × Int)) (g : Int × Int) (token : Int) :
    firstId (ids ++ [g]) token =
      (firstId ids token).or (if g.1 = token then some g.2 else none) := by
  rw [firstId, firstId, List.find?_append]
  cases hfind : ids.find? fun g => g.1 = token with
  | some found => rfl
  | none =>
    simp only [Option.none_or, List.find?_singleton, decide_eq_true_eq, Option.map_none]
    split
    · rfl
    · rfl

theorem firstId_eq_none_iff (ids : List (Int × Int)) (token : Int) :
    firstId ids token = none ↔ token ∉ ids.map Prod.fst := by
  rw [firstId, Option.map_eq_none_iff, List.find?_eq_none]
  simp only [decide_eq_true_eq, List.mem_map, not_exists, not_and]

omit [DecidableEq N] in
theorem Underway.received_lt (h : s.Underway w) (hc : s.ClientSide) {token : Int}
    (ht : token ∈ s.received.map Prod.fst) : token < s.tokenIdx := by
  obtain ⟨g, hg, rfl⟩ := List.mem_map.1 ht
  have hsent : g ∈ s.sentIds := by
    rw [h.order]
    exact List.mem_append_left _ hg
  obtain ⟨m, hm, rfl⟩ := List.mem_map.1 hsent
  obtain ⟨a, ha, htoken, _⟩ := h.origin m.call.request (.inr (.inr (List.mem_map_of_mem hm)))
  exact htoken ▸ hc.tokens.2 a ha

theorem get?_addObject {M : Type} [DecidableEq M] (r : Repository M) (n m : M) {id : Int}
    (hid : 0 ≤ id) : (r.addObject n id).2.objectToId.get? m =
      if m = n then some id else r.objectToId.get? m := by
  have hne : id ≠ -1 := by omega
  rw [Repository.addObject, if_neg hne, if_neg hne, Dict.get?_set]

theorem get?_removeObject {M : Type} [DecidableEq M] (r : Repository M) (n m : M) :
    (r.removeObject n).objectToId.get? m = if m = n then none else r.objectToId.get? m :=
  Dict.get?_erase _

/-- One call more has its token. -/
def withAsked (s : RequestLink C N) (node parent : C) (parentId : Int)
    (toServer : List ReplicationRequest) : RequestLink C N :=
  { s with
    queuedTokens := s.queuedTokens.set s.tokenIdx node
    tokenIdx := s.tokenIdx + 1
    objectAwaits := node :: s.objectAwaits
    toServer := toServer
    asked := s.asked ++ [⟨s.tokenIdx, node, parent, parentId⟩] }

theorem Served.clientSide_withAsked (h : s.Served w) {node parent : C} {parentId : Int}
    (toServer : List ReplicationRequest)
    (hnode : node ∉ s.asked.map AskedReplication.node ++ s.suspended.map Prod.fst)
    (hnew : s.clientRepository.objectToId.get? node = none)
    (hparent : s.clientRepository.objectToId.get? parent = some parentId) :
    (s.withAsked node parent parentId toServer).ClientSide := by
  have hlate (a : AskedReplication C) (ha : a ∈ s.asked) : a.token ≠ s.tokenIdx := by
    have hlt := h.client.tokens.2 a ha
    omega
  have hfresh : s.tokenIdx ∉ s.received.map Prod.fst := fun hm =>
    Int.lt_irrefl _ (h.underway.received_lt h.client hm)
  apply ClientSide.mk
  · change ((s.asked ++ [_]).map AskedReplication.token).Nodup ∧
      ∀ a ∈ s.asked ++ [_], _ < s.tokenIdx + 1
    rw [List.map_append, List.nodup_append]
    refine ⟨⟨h.client.tokens.1, List.nodup_singleton _, ?_⟩, ?_⟩
    · intro t ht t' ht'
      obtain ⟨a, ha, rfl⟩ := List.mem_map.1 ht
      rw [List.mem_singleton.1 ht']
      exact hlate a ha
    · intro a ha
      rcases List.mem_append.1 ha with ha | ha
      · have hlt := h.client.tokens.2 a ha
        omega
      · rw [List.mem_singleton.1 ha]
        exact Int.lt_succ _
  · change ((s.asked ++ [_]).map AskedReplication.node ++ s.suspended.map Prod.fst).Nodup
    rw [List.map_append, List.append_assoc]
    exact List.perm_middle.nodup_iff.2 (List.nodup_cons.2 ⟨hnode, h.client.nodes⟩)
  · intro token n
    have hasked : (∃ a ∈ s.asked ++ [⟨s.tokenIdx, node, parent, parentId⟩],
        a.token = token ∧ a.node = n) ↔
          (∃ a ∈ s.asked, a.token = token ∧ a.node = n) ∨ s.tokenIdx = token ∧ node = n := by
      simp only [List.mem_append, List.mem_singleton, or_and_right, exists_or, exists_eq_left]
    change (s.queuedTokens.set s.tokenIdx node).get? token = some n ↔
      (∃ a ∈ s.asked ++ [_], _) ∧ token ∉ s.received.map Prod.fst
    rw [Dict.get?_set, hasked]
    by_cases htoken : token = s.tokenIdx
    · rw [if_pos htoken, htoken, Option.some.injEq]
      constructor
      · intro he
        exact ⟨.inr ⟨rfl, he⟩, hfresh⟩
      · rintro ⟨⟨a, ha, hlater, _⟩ | ⟨_, he⟩, _⟩
        · exact absurd hlater (hlate a ha)
        · exact he
    · rw [if_neg htoken, h.client.queued, or_iff_left (fun he => htoken he.1.symm)]
  · exact h.client.unregistered
  · intro a ha hfree
    rcases List.mem_append.1 ha with ha | ha
    · exact h.client.first a ha hfree
    · rw [List.mem_singleton.1 ha]
      exact hnew.trans ((firstId_eq_none_iff _ _).2 hfresh).symm
  · intro a ha hfree
    rcases List.mem_append.1 ha with ha | ha
    · exact h.client.parent a ha hfree
    · rw [List.mem_singleton.1 ha]
      exact hparent

theorem Served.submit (h : s.Served w) {node parent : C}
    (hnode : node ∉ s.asked.map AskedReplication.node ++ s.suspended.map Prod.fst)
    (hnew : s.clientRepository.objectToId.get? node = none) :
    (s.submit w node parent).Served w := by
  rw [RequestLink.submit]
  by_cases hskip : s.clientRepository.getId parent = -1 ∨ node ∈ s.clientFreed
  · rw [if_pos hskip]
    exact h
  rw [if_neg hskip]
  rw [not_or] at hskip
  have hparent := (Repository.getId_eq_iff hskip.1).1 rfl
  have hold (r : ReplicationRequest) (hr : s.HasOrigin w r) (toServer : List ReplicationRequest) :
      (s.withAsked node parent (s.clientRepository.getId parent) toServer).HasOrigin w r := by
    obtain ⟨a, ha, hao⟩ := hr
    exact ⟨a, List.mem_append_left _ ha, hao⟩
  refine ⟨h.clientSide_withAsked _ hnode hnew hparent, ?_, ?_⟩
  · exact ⟨h.server.coherent, h.server.valid, h.server.unmade, h.server.parent, h.server.alive⟩
  · refine ⟨h.underway.order, h.underway.ids, fun r hr => ?_⟩
    rcases hr with hr | hr
    · cases huid : w.uid node with
      | none =>
        simp only [huid] at hr
        exact hold r (h.underway.origin r (.inl hr)) _
      | some uid =>
        simp only [huid] at hr
        rcases List.mem_append.1 hr with hr | hr
        · exact hold r (h.underway.origin r (.inl hr)) _
        · rw [List.mem_singleton.1 hr]
          exact ⟨_, List.mem_append_right _ (List.mem_singleton_self _), rfl, rfl, huid⟩
    · exact hold r (h.underway.origin r (.inr hr)) _

omit [DecidableEq C] [DecidableEq N] in
theorem not_mem_of_unasked {node : C} (h : s.Unasked node) :
    node ∉ s.asked.map AskedReplication.node ++ s.suspended.map Prod.fst := by
  rw [List.mem_append, List.mem_map, List.mem_map, not_or]
  constructor
  · rintro ⟨a, ha, he⟩
    exact h.1 a ha he
  · rintro ⟨c, hc, he⟩
    exact h.2 c hc he

theorem Served.request (h : s.Served w) {node parent : C} (hnode : s.Unasked node)
    (hnew : node ∉ s.clientRepository.objectToId) :
    (s.requestReplication w node parent).Served w := by
  have hmem := not_mem_of_unasked hnode
  rw [← Dict.get?_eq_none_iff] at hnew
  rw [requestReplication]
  split
  · refine ⟨⟨h.client.tokens, ?_, h.client.queued, ?_, h.client.first, h.client.parent⟩,
      ⟨h.server.coherent, h.server.valid, h.server.unmade, h.server.parent, h.server.alive⟩,
      ⟨h.underway.order, h.underway.ids, h.underway.origin⟩⟩
    · change (s.asked.map AskedReplication.node ++
        (s.suspended ++ [(node, parent)]).map Prod.fst).Nodup
      rw [List.map_append, ← List.append_assoc]
      exact (List.perm_append_singleton _ _).nodup_iff.2 (List.nodup_cons.2 ⟨hmem, h.client.nodes⟩)
    · intro c hc
      rcases List.mem_append.1 hc with hc | hc
      · exact h.client.unregistered c hc
      · rw [List.mem_singleton.1 hc]
        exact hnew
  · exact h.submit hmem hnew

theorem Served.resume (h : s.Served w) (idx : Nat) : (s.resume w idx).Served w := by
  rw [RequestLink.resume]
  split
  · exact h
  · next node parent hcall =>
    split
    · exact h
    have hperm : s.suspended.Perm ((node, parent) :: s.suspended.eraseIdx idx) := by
      obtain ⟨hlt, hget⟩ := List.getElem?_eq_some_iff.1 hcall
      rw [← hget]
      exact (List.getElem_cons_eraseIdx_perm hlt).symm
    have hnodes : (node :: (s.asked.map AskedReplication.node ++
        (s.suspended.eraseIdx idx).map Prod.fst)).Nodup := by
      refine (List.perm_middle.symm.trans ?_).nodup_iff.2 h.client.nodes
      exact List.Perm.append_left _ (hperm.map Prod.fst).symm
    rw [List.nodup_cons] at hnodes
    refine Served.submit (s := { s with suspended := s.suspended.eraseIdx idx })
      ⟨⟨h.client.tokens, hnodes.2, h.client.queued, ?_, h.client.first, h.client.parent⟩,
        ⟨h.server.coherent, h.server.valid, h.server.unmade, h.server.parent, h.server.alive⟩,
        ⟨h.underway.order, h.underway.ids, h.underway.origin⟩⟩ hnodes.1 ?_
    · intro c hc
      exact h.client.unregistered c (List.mem_of_mem_eraseIdx hc)
    · exact h.client.unregistered _ (List.mem_of_getElem? hcall)

theorem Served.learn (h : s.Served w) {node : C} {id : Int} (hnode : s.Unasked node)
    (hnew : node ∉ s.clientRepository.objectToId) (hid : 0 ≤ id) :
    (s.addClientObject node id).Served w := by
  rw [← Dict.get?_eq_none_iff] at hnew
  have hother (m : C) (hm : m ≠ node) :
      (s.clientRepository.addObject node id).2.objectToId.get? m =
        s.clientRepository.objectToId.get? m := by
    rw [get?_addObject _ _ _ hid, if_neg hm]
  refine ⟨⟨h.client.tokens, h.client.nodes, h.client.queued, ?_, ?_, ?_⟩,
    ⟨h.server.coherent, h.server.valid, h.server.unmade, h.server.parent, h.server.alive⟩,
    ⟨h.underway.order, h.underway.ids, h.underway.origin⟩⟩
  · intro c hc
    exact (hother c.1 (hnode.2 c hc)).trans (h.client.unregistered c hc)
  · intro a ha hfree
    exact (hother a.node (hnode.1 a ha)).trans (h.client.first a ha hfree)
  · intro a ha hfree
    have hparent := h.client.parent a ha hfree
    refine (hother a.parent ?_).trans hparent
    intro he
    rw [he, hnew] at hparent
    cases hparent

theorem Served.freeClientNode (h : s.Served w) (node : C) : (s.freeClientNode node).Served w := by
  have hother (m : C) (hm : m ∉ node :: s.clientFreed) :
      m ∉ s.clientFreed ∧ (s.clientRepository.removeObject node).objectToId.get? m =
        s.clientRepository.objectToId.get? m := by
    rw [List.mem_cons, not_or] at hm
    exact ⟨hm.2, by rw [get?_removeObject, if_neg hm.1]⟩
  refine ⟨⟨h.client.tokens, h.client.nodes, h.client.queued, ?_, ?_, ?_⟩,
    ⟨h.server.coherent, h.server.valid, h.server.unmade, h.server.parent, h.server.alive⟩,
    ⟨h.underway.order, h.underway.ids, h.underway.origin⟩⟩
  · intro c hc
    refine (get?_removeObject s.clientRepository node c.1).trans ?_
    rw [h.client.unregistered c hc, ite_self]
  · intro a ha hfree
    obtain ⟨hthere, hsame⟩ := hother a.node hfree
    exact hsame.trans (h.client.first a ha hthere)
  · intro a ha hfree
    obtain ⟨hthere, hsame⟩ := hother a.parent hfree
    exact hsame.trans (h.client.parent a ha hthere)

theorem get?_addObject_allocated {M : Type} [DecidableEq M] (r : Repository M) (n m : M) :
    (r.addObject n).2.objectToId.get? m =
      if m = n then some (r.addObject n).1 else r.objectToId.get? m := by
  simp only [Repository.addObject, ↓reduceIte, Dict.get?_set]

theorem Served.deliverRequest (h : s.Served w) {request : ReplicationRequest}
    {rest : List ReplicationRequest} (hs : s.toServer = request :: rest) :
    ({ s with toServer := rest }.receiveRequest w request).Served w := by
  have hvalid (n : ServerNode N) (hn : s.repository.idToObject.get? request.parentId = some n) :
      decide (n ∉ s.serverFreed) = true :=
    decide_eq_true (h.server.valid n _ ((h.server.coherent.inverse n _).2 hn))
  have hfind := Repository.getObject_of_valid hvalid
  have horigin : s.HasOrigin w request :=
    h.underway.origin request (.inl (hs ▸ List.mem_cons_self))
  have hrest (r : ReplicationRequest) (hr : r ∈ rest) : r ∈ s.toServer :=
    hs ▸ List.mem_cons_of_mem _ hr
  have hdrop : ({ s with toServer := rest } : RequestLink C N).Served w :=
    ⟨⟨h.client.tokens, h.client.nodes, h.client.queued, h.client.unregistered, h.client.first,
        h.client.parent⟩,
      ⟨h.server.coherent, h.server.valid, h.server.unmade, h.server.parent, h.server.alive⟩,
      ⟨h.underway.order, h.underway.ids,
        fun r hr => h.underway.origin r (hr.imp_left (hrest r))⟩⟩
  simp only [receiveRequest, hfind]
  cases hparent : s.repository.idToObject.get? request.parentId with
  | none => exact hdrop
  | some parent =>
    simp only
    split
    · refine ⟨⟨h.client.tokens, h.client.nodes, h.client.queued, h.client.unregistered,
          h.client.first, h.client.parent⟩,
        ⟨h.server.coherent, h.server.valid, h.server.unmade, ?_, h.server.alive⟩,
        ⟨h.underway.order, h.underway.ids, ?_⟩⟩
      · rintro call (hc | hc) hfree
        · rcases List.mem_append.1 hc with hc | hc
          · exact h.server.parent call (.inl hc) hfree
          · rw [List.mem_singleton.1 hc]
            exact (h.server.coherent.inverse _ _).2 hparent
        · exact h.server.parent call (.inr hc) hfree
      · rintro r (hr | hr | hr)
        · exact h.underway.origin r (.inl (hrest r hr))
        · rw [List.map_append, List.mem_append] at hr
          rcases hr with hr | hr
          · exact h.underway.origin r (.inr (.inl hr))
          · rw [List.mem_singleton.1 hr]
            exact horigin
        · exact h.underway.origin r (.inr (.inr hr))
    · exact hdrop

theorem Served.accept (h : s.Served w) (idx : Nat)
    (hcan : s.repository.CanAdd (.made s.made.length)) : (s.accept idx true).Served w := by
  rw [RequestLink.accept]
  split
  · exact h
  · next call hcall =>
    split
    · exact h
    have hmem := List.mem_of_getElem? hcall
    have hget (m : ServerNode N) := get?_addObject_allocated s.repository (.made s.made.length) m
    obtain ⟨hfresh, hthere⟩ := h.server.unmade s.made.length (Nat.le_refl _)
    have hother {m : ServerNode N} {id : Int} (hm : s.repository.objectToId.get? m = some id) :
        (s.repository.addObject (.made s.made.length)).2.objectToId.get? m = some id := by
      rw [hget, if_neg, hm]
      intro he
      rw [he, hfresh] at hm
      cases hm
    simp only [↓reduceIte]
    refine ⟨⟨h.client.tokens, h.client.nodes, h.client.queued, h.client.unregistered,
        h.client.first, h.client.parent⟩,
      ⟨h.server.coherent.addObject hcan, ?_, ?_, ?_, ?_⟩, ⟨?_, ?_, ?_⟩⟩
    · intro node id hid
      rw [hget] at hid
      split at hid
      · next he =>
        rw [he]
        exact hthere
      · exact h.server.valid node id hid
    · intro i hi
      rw [List.length_append, List.length_singleton] at hi
      obtain ⟨hnone, hout⟩ := h.server.unmade i (Nat.le_of_succ_le hi)
      refine ⟨?_, hout⟩
      rw [hget, if_neg, hnone]
      intro he
      have hidx := ServerNode.made.inj he
      omega
    · rintro c (hc | hc) hfree
      · exact hother (h.server.parent c (.inl hc) hfree)
      · rw [List.map_append, List.mem_append] at hc
        rcases hc with hc | hc
        · exact hother (h.server.parent c (.inr hc) hfree)
        · rw [List.mem_singleton.1 hc] at hfree ⊢
          exact hother (h.server.parent call (.inl hmem) hfree)
    · intro i m hm hfree
      rw [List.getElem?_append] at hm
      split at hm
      · exact hother (h.server.alive i m hm hfree)
      · next hlt =>
        have hi : i - s.made.length < 1 := (List.getElem?_eq_some_iff.1 hm).1
        have hidx : i = s.made.length := by omega
        rw [hidx, Nat.sub_self] at hm
        rw [hget, hidx, if_pos rfl, ← Option.some.inj hm]
    · change (s.made ++ [_]).map _ = s.received ++ (s.toClient ++ [_])
      rw [List.map_append, ← List.append_assoc, ← h.underway.order]
      rfl
    · intro m hm
      rcases List.mem_append.1 hm with hm | hm
      · exact h.underway.ids m hm
      · rw [List.mem_singleton.1 hm]
        exact (h.server.coherent.addObject hcan).range _ _ ((hget _).trans (if_pos rfl)) |>.1
    · rintro r (hr | hr | hr)
      · exact h.underway.origin r (.inl hr)
      · exact h.underway.origin r (.inr (.inl hr))
      · rw [List.map_append, List.mem_append] at hr
        rcases hr with hr | hr
        · exact h.underway.origin r (.inr (.inr hr))
        · rw [List.mem_singleton.1 hr]
          exact h.underway.origin _ (.inr (.inl (List.mem_map_of_mem hmem)))

theorem Served.addServerNode (h : s.Served w) {node : N}
    (hcan : s.repository.CanAdd (.existing node)) (hfree : .existing node ∉ s.serverFreed) :
    ({ s with repository := (s.repository.addObject (.existing node)).2 } :
      RequestLink C N).Served w := by
  have hget (m : ServerNode N) := get?_addObject_allocated s.repository (.existing node) m
  have hnew := (Dict.get?_eq_none_iff _).2 hcan.1
  have hother {m : ServerNode N} {id : Int} (hm : s.repository.objectToId.get? m = some id) :
      (s.repository.addObject (.existing node)).2.objectToId.get? m = some id := by
    rw [hget, if_neg, hm]
    intro he
    rw [he, hnew] at hm
    cases hm
  refine ⟨⟨h.client.tokens, h.client.nodes, h.client.queued, h.client.unregistered,
      h.client.first, h.client.parent⟩,
    ⟨h.server.coherent.addObject hcan, ?_, ?_, ?_, ?_⟩,
    ⟨h.underway.order, h.underway.ids, h.underway.origin⟩⟩
  · intro m id hid
    rw [hget] at hid
    split at hid
    · next he =>
      rw [he]
      exact hfree
    · exact h.server.valid m id hid
  · intro idx hidx
    obtain ⟨hnone, hout⟩ := h.server.unmade idx hidx
    refine ⟨(hget _).trans ?_, hout⟩
    rw [if_neg (by simp), hnone]
  · intro call hc hthere
    exact hother (h.server.parent call hc hthere)
  · intro idx m hm hthere
    exact hother (h.server.alive idx m hm hthere)

theorem Served.freeServerNode (h : s.Served w) {node : ServerNode N}
    (hmade : ∀ idx, node = .made idx → idx < s.made.length) :
    ({ s with
      repository := s.repository.removeObject node
      serverFreed := node :: s.serverFreed } : RequestLink C N).Served w := by
  have hget (m : ServerNode N) := get?_removeObject s.repository node m
  have hother (m : ServerNode N) (hm : m ∉ node :: s.serverFreed) : m ∉ s.serverFreed ∧
      (s.repository.removeObject node).objectToId.get? m = s.repository.objectToId.get? m := by
    rw [List.mem_cons, not_or] at hm
    exact ⟨hm.2, (hget m).trans (if_neg hm.1)⟩
  refine ⟨⟨h.client.tokens, h.client.nodes, h.client.queued, h.client.unregistered,
      h.client.first, h.client.parent⟩, ⟨?_, ?_, ?_, ?_, ?_⟩,
    ⟨h.underway.order, h.underway.ids, h.underway.origin⟩⟩
  · by_cases hin : node ∈ s.repository.objectToId
    · exact h.server.coherent.removeObject hin
    · have hnone := (Dict.get?_eq_none_iff _).2 hin
      refine ⟨fun m i => ?_, fun m i hm => ?_, h.server.coherent.cursor⟩
      · rw [hget]
        simp only [Repository.removeObject, hnone]
        rw [← h.server.coherent.inverse]
        split
        · next he => rw [he, hnone]
        · exact Iff.rfl
      · rw [hget] at hm
        split at hm
        · cases hm
        · exact h.server.coherent.range m i hm
  · intro m id hid
    rw [hget] at hid
    split at hid
    · cases hid
    · next hne => exact List.not_mem_cons_of_ne_of_not_mem hne (h.server.valid m id hid)
  · intro idx hidx
    obtain ⟨hnone, hout⟩ := h.server.unmade idx hidx
    refine ⟨(hget _).trans ?_, List.not_mem_cons_of_ne_of_not_mem ?_ hout⟩
    · rw [hnone, ite_self]
    · intro he
      have hlt := hmade idx he.symm
      have hle : s.made.length ≤ idx := hidx
      omega
  · intro call hc hthere
    obtain ⟨hfree, hsame⟩ := hother _ hthere
    exact hsame.trans (h.server.parent call hc hfree)
  · intro idx m hm hthere
    obtain ⟨hfree, hsame⟩ := hother _ hthere
    exact hsame.trans (h.server.alive idx m hm hfree)

omit [DecidableEq N] in
theorem ClientSide.eq_of_token (h : s.ClientSide) {a b : AskedReplication C} (ha : a ∈ s.asked)
    (hb : b ∈ s.asked) (he : a.token = b.token) : a = b :=
  List.inj_on_of_nodup_map h.tokens.1 ha hb he

omit [DecidableEq N] in
theorem ClientSide.eq_of_node (h : s.ClientSide) {a b : AskedReplication C} (ha : a ∈ s.asked)
    (hb : b ∈ s.asked) (he : a.node = b.node) : a = b :=
  List.inj_on_of_nodup_map (List.nodup_append.1 h.nodes).1 ha hb he

omit [DecidableEq C] [DecidableEq N] in
/-- A token that is still queued has not come yet; any other has, and its first id stays. -/
theorem firstId_received (token id t : Int) (hin : t = token → t ∈ s.received.map Prod.fst) :
    firstId (s.received ++ [(token, id)]) t = firstId s.received t := by
  rw [firstId_append]
  by_cases ht : token = t
  · have hsome : firstId s.received t ≠ none := by
      rw [Ne, firstId_eq_none_iff, not_not]
      exact hin ht.symm
    obtain ⟨i, hi⟩ := Option.ne_none_iff_exists'.1 hsome
    rw [hi]
    rfl
  · rw [if_neg ht, Option.or_none]

omit [DecidableEq N] in
theorem ClientSide.ignore (h : s.ClientSide) {token : Int} (id : Int)
    (hin : token ∈ s.received.map Prod.fst) :
    ({ s with received := s.received ++ [(token, id)] } : RequestLink C N).ClientSide := by
  refine ⟨h.tokens, h.nodes, fun t n => ?_, h.unregistered, fun a ha hfree => ?_, h.parent⟩
  · refine (h.queued t n).trans (and_congr_right fun _ => ?_)
    rw [List.map_append, List.mem_append, not_or, List.map_singleton, List.mem_singleton]
    exact ⟨fun ht => ⟨ht, fun he => ht (he ▸ hin)⟩, fun ht => ht.1⟩
  · refine (h.first a ha hfree).trans (firstId_received token id a.token ?_).symm
    intro he
    exact he ▸ hin

omit [DecidableEq N] in
theorem ClientSide.take (h : s.ClientSide) {token id : Int} {a : AskedReplication C}
    (ha : a ∈ s.asked)
    (htoken : a.token = token) (hnew : token ∉ s.received.map Prod.fst) (hid : 0 ≤ id) :
    (if a.node ∈ s.clientFreed then
        { s with
          received := s.received ++ [(token, id)]
          queuedTokens := s.queuedTokens.erase token }
      else { s with
        received := s.received ++ [(token, id)]
        queuedTokens := s.queuedTokens.erase token }.addClientObject a.node id :
      RequestLink C N).ClientSide := by
  have hqueued (t : Int) (n : C) : (s.queuedTokens.erase token).get? t = some n ↔
      (∃ b ∈ s.asked, b.token = t ∧ b.node = n) ∧
        t ∉ (s.received ++ [(token, id)]).map Prod.fst := by
    rw [Dict.get?_erase, List.map_append, List.mem_append, not_or, List.map_singleton,
      List.mem_singleton, ← and_assoc, ← h.queued]
    by_cases ht : t = token
    · simp [ht]
    · simp [ht]
  have hfirst (b : AskedReplication C) (hb : b ∈ s.asked) (hne : b ≠ a) :
      firstId (s.received ++ [(token, id)]) b.token = firstId s.received b.token :=
    firstId_received token id b.token fun he =>
      absurd (h.eq_of_token hb ha (he.trans htoken.symm)) hne
  split
  · next hgone =>
    refine ⟨h.tokens, h.nodes, hqueued, h.unregistered, fun b hb hfree => ?_, h.parent⟩
    refine (h.first b hb hfree).trans (hfirst b hb ?_).symm
    rintro rfl
    exact hfree hgone
  · next hthere =>
    have hget (m : C) := get?_addObject s.clientRepository a.node m hid
    have hnone : s.clientRepository.objectToId.get? a.node = none := by
      rw [h.first a ha hthere, firstId_eq_none_iff, htoken]
      exact hnew
    refine ⟨h.tokens, h.nodes, hqueued, fun c hc => ?_, fun b hb hfree => ?_, fun b hb hfree => ?_⟩
    · refine (hget c.1).trans ?_
      rw [if_neg, h.unregistered c hc]
      exact (List.nodup_append.1 h.nodes).2.2 _ (List.mem_map_of_mem ha) _
        (List.mem_map_of_mem hc) |>.symm
    · refine (hget b.node).trans ?_
      by_cases hba : b.node = a.node
      · rw [if_pos hba, h.eq_of_node hb ha hba, htoken]
        change _ = firstId (s.received ++ [(token, id)]) token
        rw [firstId_append, (firstId_eq_none_iff _ _).2 hnew, if_pos rfl]
        rfl
      · rw [if_neg hba, h.first b hb hfree]
        refine (hfirst b hb ?_).symm
        rintro rfl
        exact hba rfl
    · have hparent := h.parent b hb hfree
      refine (hget b.parent).trans ?_
      rw [if_neg, hparent]
      intro he
      rw [he, hnone] at hparent
      cases hparent

theorem Served.deliverIds (h : s.Served w) {token id : Int} {rest : List (Int × Int)}
    (hs : s.toClient = (token, id) :: rest) :
    ({ s with toClient := rest }.receiveIds token id).Served w := by
  have horder : s.sentIds = (s.received ++ [(token, id)]) ++ rest := by
    rw [h.underway.order, hs, List.append_assoc]
    rfl
  have hsent : (token, id) ∈ s.sentIds := by
    rw [horder]
    exact List.mem_append_left _ (List.mem_append_right _ (List.mem_singleton_self _))
  obtain ⟨m, hm, hmt⟩ := List.mem_map.1 hsent
  have hid : 0 ≤ id := (Prod.mk.inj hmt).2 ▸ h.underway.ids m hm
  obtain ⟨a, ha, htoken, _⟩ := h.underway.origin m.call.request
    (.inr (.inr (List.mem_map_of_mem hm)))
  have hat : a.token = token := htoken.trans (Prod.mk.inj hmt).1
  have hserver : ServerSide s :=
    ⟨h.server.coherent, h.server.valid, h.server.unmade, h.server.parent, h.server.alive⟩
  rw [receiveIds]
  by_cases hin : token ∈ s.received.map Prod.fst
  · have hgone : s.queuedTokens.get? token = none := by
      rw [Option.eq_none_iff_forall_ne_some]
      intro n hn
      exact ((h.client.queued token n).1 hn).2 hin
    simp only [hgone]
    have hclient := h.client.ignore id hin
    exact ⟨⟨hclient.1, hclient.2, hclient.3, hclient.4, hclient.5, hclient.6⟩,
      ⟨hserver.1, hserver.2, hserver.3, hserver.4, hserver.5⟩,
      ⟨horder, h.underway.ids, h.underway.origin⟩⟩
  · have hqueued := (h.client.queued token a.node).2 ⟨⟨a, ha, hat, rfl⟩, hin⟩
    simp only [hqueued]
    have hclient := h.client.take ha hat hin hid
    by_cases hgone : a.node ∈ s.clientFreed
    · rw [if_pos hgone] at hclient ⊢
      exact ⟨⟨hclient.1, hclient.2, hclient.3, hclient.4, hclient.5, hclient.6⟩,
        ⟨hserver.1, hserver.2, hserver.3, hserver.4, hserver.5⟩,
        ⟨horder, h.underway.ids, h.underway.origin⟩⟩
    · rw [if_neg hgone] at hclient ⊢
      exact ⟨⟨hclient.1, hclient.2, hclient.3, hclient.4, hclient.5, hclient.6⟩,
        ⟨hserver.1, hserver.2, hserver.3, hserver.4, hserver.5⟩,
        ⟨horder, h.underway.ids, h.underway.origin⟩⟩

theorem Served.step (s : RequestLink C N) (event : RequestEvent C N) (h : s.Served w)
    (hallowed : s.Allowed event) : (s.step w event).Served w := by
  cases event with
  | request node parent => exact h.request hallowed.1 hallowed.2
  | resume idx => exact h.resume idx
  | learn node id => exact h.learn hallowed.1 hallowed.2.1 hallowed.2.2
  | freeClientNode node => exact h.freeClientNode node
  | deliverRequest =>
    simp only [RequestLink.step]
    split
    · exact h
    · next hs => exact h.deliverRequest hs
  | accept idx insideTree =>
    obtain ⟨rfl, hcan⟩ := hallowed
    exact h.accept idx hcan
  | addServerNode node => exact h.addServerNode hallowed.1 hallowed.2
  | freeServerNode node => exact h.freeServerNode hallowed
  | deliverIds =>
    simp only [RequestLink.step]
    split
    · exact h
    · next hs => exact h.deliverIds hs

theorem Idle.served (h : s.Idle) : s.Served w := by
  refine ⟨⟨?_, ?_, fun t n => ?_, ?_, ?_, ?_⟩, ⟨h.server, ?_, fun idx _ => ⟨?_, ?_⟩, ?_, ?_⟩,
    ⟨?_, ?_, ?_⟩⟩
  · simp [h.asked]
  · simp [h.asked, h.suspended]
  · simp [h.asked, h.queuedTokens]
  · simp [h.suspended]
  · simp [h.asked]
  · simp [h.asked]
  · simp [h.freed.2]
  · rw [Option.eq_none_iff_forall_ne_some]
    intro id hid
    obtain ⟨n, hn⟩ := h.existing _ id hid
    cases hn
  · simp [h.freed.2]
  · simp [h.callbacks, h.made]
  · simp [h.made]
  · simp [sentIds, h.made, h.received, h.toClient]
  · simp [h.made]
  · simp [h.toServer, h.callbacks, h.made]

theorem Served.answered (h : s.Served w) : s.Answered w := by
  refine ⟨fun a ha b hb he => ?_, h.client.first, h.underway.order, fun idx m hm => ?_⟩
  · rcases he with he | he
    · exact h.client.eq_of_token ha hb he
    · exact h.client.eq_of_node ha hb he
  · have hmem := List.mem_of_getElem? hm
    obtain ⟨a, ha, htoken, hparent, huid⟩ := h.underway.origin m.call.request
      (.inr (.inr (List.mem_map_of_mem hmem)))
    refine ⟨a, ha, htoken, huid, fun hfree => ?_, ?_, h.server.alive idx m hm⟩
    · rw [← hparent]
      exact h.client.parent a ha hfree
    · exact h.server.parent m.call (.inr (List.mem_map_of_mem hmem))

/-- Requests are answered in every state of every run. -/
theorem requests_answered (w : RequestScripts C) {s : RequestLink C N} (hidle : s.Idle)
    (events : List (RequestEvent C N)) (hallowed : Runs.Guarded (step w) Allowed s events) :
    Runs.Always (step w) (Answered w) s events :=
  (Runs.always_of_guarded (Served.step (w := w)) hidle.served hallowed).mono
    fun _ hs => hs.answered

/-- A client and a server with their roots, under the id 0. -/
def rootsOnly : RequestLink Nat Nat where
  clientRepository := (Repository.new.addObject 0).2
  objectAwaits := []
  queuedTokens := .empty
  tokenIdx := 0
  suspended := []
  clientFreed := []
  toServer := []
  toClient := []
  repository := (Repository.new.addObject (.existing 0)).2
  callbacks := []
  made := []
  serverFreed := []
  asked := []
  received := []

def anyScript : RequestScripts Nat := ⟨fun _ => some 7, fun _ => [], fun _ => true⟩

/-- A node and one below it, which waits for the id of the first; and the first request is accepted
twice. -/
def nestedRequests : List (RequestEvent Nat Nat) :=
  [.request 1 0, .request 2 1, .deliverRequest, .accept 0 true, .accept 0 true, .deliverIds,
    .resume 0, .deliverRequest, .deliverIds, .accept 1 true, .deliverIds]

theorem idle_rootsOnly : rootsOnly.Idle := by
  refine ⟨?_, rfl, rfl, rfl, rfl, rfl, rfl, rfl, ⟨rfl, rfl⟩, rfl, rfl, fun node id h => ?_⟩
  · exact Repository.Coherent.new.addObject ⟨by decide, by decide⟩
  · cases node with
    | existing n => exact ⟨n, rfl⟩
    | made idx => cases h

theorem requests_answered_nested :
    Runs.Always (step anyScript) (Answered anyScript) rootsOnly nestedRequests := by
  apply requests_answered anyScript idle_rootsOnly
  refine ⟨⟨⟨by decide, by decide⟩, by decide⟩, ⟨⟨by decide, by decide⟩, by decide⟩, trivial,
    ⟨rfl, ⟨by decide, by decide⟩⟩, ⟨rfl, ⟨by decide, by decide⟩⟩, trivial, trivial, trivial,
    trivial, ⟨rfl, ⟨by decide, by decide⟩⟩, trivial, trivial⟩

example : (Runs.run (step anyScript) rootsOnly nestedRequests).clientRepository.getId 2 = 3 := by
  decide

end RequestLink

end Godaemon
