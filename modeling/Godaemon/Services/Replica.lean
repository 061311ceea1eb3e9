import Godaemon.Lib.Runs
import Godaemon.Services.BatchRepository
import Godaemon.Services.UpdateData

namespace Godaemon
set_option autoImplicit true

/-- A client with its nodes: those below the MultiplayerRoot, those outside of the tree, those whose
end the replication service hears of since they have been in the tree, and those that are freed
when the frame ends. A node may have `META_OWNER`, and be from a place in an instance of what a uid
is loaded as. What an update makes is new, so that its type is another one afterwards. -/
structure ReplicaClient where
  Node : Type
  decEq : DecidableEq Node
  repository : Repository Node
  tree : Forest Node
  root : Node
  isInstanceValid : Node → Bool
  listening : Node → Bool
  metaOwner : Node → Option Int
  resource : Node → Option (Int × ScenePath)
  queued : List Node

namespace ReplicaClient

instance (c : ReplicaClient) : DecidableEq c.Node := c.decEq

def isInsideTree (c : ReplicaClient) (node : c.Node) : Bool := c.root ∈ c.tree.path node

/-- Take the node of an id out of the tree, unless it is already. -/
def removeNode (c : ReplicaClient) (id : Int) : ReplicaClient :=
  let (object, repository) := c.repository.getObject c.isInstanceValid id
  match object with
  | none => { c with repository := repository }
  | some node =>
    if c.isInsideTree node then
      { c with
        repository := repository
        tree := c.tree.detach node
        queued := c.queued ++ [node] }
    else { c with repository := repository }

/-- The nodes of a client for which a batch is built. -/
def world (load : Int → Option Resource) (c : ReplicaClient) : BatchWorld c.Node :=
  ⟨c.isInstanceValid, load⟩

def hears (c : ReplicaClient) : BatchNode c.Node → Bool
  | .existing node => c.listening node
  | .created _ _ => false

def ownerIn (c : ReplicaClient) (s : BatchState c.Node) : BatchNode c.Node → Option Int
  | .existing node => c.metaOwner node
  | .created rootId path => s.metaOwner.get? (.created rootId path)

def resourceIn (c : ReplicaClient) (s : BatchState c.Node) :
    BatchNode c.Node → Option (Int × ScenePath)
  | .existing node => c.resource node
  | .created rootId path => (s.resource.get? (.created rootId [])).map fun uid => (uid, path)

/-- The client once a batch has been added. -/
def withBatch (c : ReplicaClient) (load : Int → Option Resource) (s : BatchState c.Node) :
    ReplicaClient where
  Node := BatchNode c.Node
  decEq := inferInstance
  repository := s.repository
  tree := s.tree
  root := .existing c.root
  isInstanceValid := (c.world load).isValid
  listening node := c.hears node || .existing c.root ∈ s.tree.path node
  metaOwner := c.ownerIn s
  resource := c.resourceIn s
  queued := c.queued.map .existing ++ s.queuedForDeletion

def addNodes (load : Int → Option Resource) (added : List AddedNode) (c : ReplicaClient) :
    Option ReplicaClient :=
  ((c.world load).updateVisibility added (BatchWorld.start c.repository.born c.tree)).map
    (c.withBatch load)

/-- Receive an update; `none` where the script fails. -/
def updateVisibility (load : Int → Option Resource) (codec : VariantCodec) (data : List UInt8)
    (c : ReplicaClient) : Option ReplicaClient :=
  match decompressVisibilityData codec data with
  | none => some c
  | some (added, removed) => (removed.foldl removeNode c).addNodes load added

/-- A node is freed when one is that it is below. -/
def freed (c : ReplicaClient) (node : c.Node) : Bool := c.queued.any (· ∈ c.tree.path node)

/-- The end of a frame: a node that is freed leaves the repository. -/
def frameEnd (c : ReplicaClient) : ReplicaClient :=
  { c with
    repository := (c.repository.objectToId.keys.filter fun n => c.freed n && c.listening n).foldl
      Repository.removeObject c.repository
    isInstanceValid := fun n => c.isInstanceValid n && !c.freed n
    queued := [] }

end ReplicaClient

/-- The server changes which nodes a client sees, or a frame of the client ends. -/
inductive ReplicaEvent (N : Type) where
  | visibleNodes (new : List N)
  | frameEnd

/-- The nodes that a client should see, the client, which is gone once its script has failed, and
what has been hidden from it in this frame. -/
structure ReplicaRun (N : Type) where
  visible : List N
  client : Option ReplicaClient
  hidden : List N

namespace UpdateSource

variable {S N : Type} [DecidableEq N] {T : ServerTree S N} (X : UpdateSource T)
  (load : Int → Option Resource) (codec : VariantCodec)

def replicaStep (s : ReplicaRun N) : ReplicaEvent N → ReplicaRun N
  | .visibleNodes new =>
    { visible := new
      client := match X.updatePeerNodes codec s.visible new with
        | none => s.client
        | some data => s.client.bind (ReplicaClient.updateVisibility load codec data)
      hidden := s.hidden ++ s.visible.filter (· ∉ new) }
  | .frameEnd => { s with client := s.client.map ReplicaClient.frameEnd, hidden := [] }

/-- A node that a client has a copy of: it is always there, or it comes along with one that the
client sees. -/
def HasCopy (visible : List N) (n : N) : Prop :=
  T.alwaysVisible n = true ∨ ∃ s ∈ visible, X.Carries s n

/-- What a client may see: registered nodes, each once, and with a node all above it. -/
structure Visible (nodes : List N) : Prop where
  nodup : nodes.Nodup
  registered : ∀ n ∈ nodes, X.registered n = true
  above : ∀ n ∈ nodes, ∀ a ∈ T.path n, X.registered a = true → a ∈ nodes

/-- What has been hidden from a client in a frame is not shown again in the same. -/
def Follows (s : ReplicaRun N) : ReplicaEvent N → Prop
  | .visibleNodes new => X.Visible new ∧ ∀ n ∈ new, n ∉ s.visible → n ∉ s.hidden
  | .frameEnd => True

/-- The client resolves an id to a node in its tree. -/
def Shows (c : ReplicaClient) (id : Int) (x : c.Node) : Prop :=
  (c.repository.getObject c.isInstanceValid id).1 = some x ∧ c.isInsideTree x = true

/-- The tree of a client is a copy of what the client has copies of: their ids resolve to nodes of
the tree that hang below each other as on the server, and no other id does. What the client sees has
its owner, and is made from its scene or script, each part in its place. -/
structure Replicates (visible : List N) (c : ReplicaClient) : Prop where
  shown : ∀ n, X.HasCopy visible n → ∃ x, Shows c (T.repository.getId n) x ∧
    ∀ p, T.parent n = some p → ∃ y, Shows c (T.repository.getId p) y ∧ c.tree.parent x = some y
  owner : ∀ s ∈ visible, ∀ x, Shows c (T.repository.getId s) x → c.metaOwner x = some (X.owner s)
  resource : ∀ s ∈ visible, ∀ path n x, X.getNode s path = some n → X.Carries s n →
    Shows c (T.repository.getId n) x → c.resource x = some (X.uid s, path)
  only : ∀ id x, Shows c id x → ∃ n, id = T.repository.getId n ∧ X.HasCopy visible n
  settled : c.queued = [] → ∀ id x, (c.repository.getObject c.isInstanceValid id).1 = some x →
    Shows c id x

/-- What the repository of a client has for what it sees is made from this, with its owner. -/
structure Made (visible : List N) (c : ReplicaClient) : Prop where
  owner : ∀ s ∈ visible, ∀ x, c.repository.idToObject.get? (T.repository.getId s) = some x →
    c.metaOwner x = some (X.owner s)
  resource : ∀ s ∈ visible, ∀ path n x, X.getNode s path = some n → X.Carries s n →
    c.repository.idToObject.get? (T.repository.getId n) = some x →
      c.resource x = some (X.uid s, path)

variable {X} {visible : List N} {c : ReplicaClient}

theorem made_nil : X.Made [] c :=
  ⟨fun _ hs => absurd hs List.not_mem_nil, fun _ hs => absurd hs List.not_mem_nil⟩

theorem Made.of_subset (h : X.Made visible c) {fewer : List N} (hsub : ∀ s ∈ fewer, s ∈ visible) :
    X.Made fewer c where
  owner s hs := h.owner s (hsub s hs)
  resource s hs := h.resource s (hsub s hs)

theorem Made.of_repository (h : X.Made visible c) {repository : Repository c.Node}
    (hsub : ∀ i x, repository.idToObject.get? i = some x →
      c.repository.idToObject.get? i = some x) :
    X.Made visible { c with
      repository := repository } where
  owner s hs x hx := h.owner s hs x (hsub _ x hx)
  resource s hs path n x hn hc hx := h.resource s hs path n x hn hc (hsub _ x hx)

theorem Made.removeNode (h : X.Made visible c) (id : Int) : X.Made visible (c.removeNode id) := by
  have hless := h.of_repository (c.repository.get?_of_getObject c.isInstanceValid id)
  rw [ReplicaClient.removeNode]
  cases hget : c.repository.getObject c.isInstanceValid id with
  | mk object repository =>
    rw [hget] at hless
    cases object with
    | none => exact hless
    | some node =>
      by_cases hin : c.isInsideTree node = true
      · simp only [if_pos hin]
        exact ⟨hless.owner, hless.resource⟩
      · simp only [if_neg hin]
        exact hless

theorem Made.removeNodes (h : X.Made visible c) (ids : List Int) :
    X.Made visible (ids.foldl ReplicaClient.removeNode c) := by
  induction ids generalizing c with
  | nil => exact h
  | cons id ids ih => exact ih (h.removeNode id)

end UpdateSource

/-- What holds of a client while it has copies of some nodes in its tree, and while what it has in
the repository otherwise waits to be freed. -/
structure Mirror {S N : Type} [DecidableEq N] (T : ServerTree S N) (P H : N → Prop)
    (c : ReplicaClient) : Prop where
  inverse : c.repository.Inverse
  valid : ∀ i x, c.repository.idToObject.get? i = some x →
    c.isInstanceValid x = true ∧ c.listening x = true
  root_parent : c.tree.parent c.root = none
  queued : ∀ q ∈ c.queued, c.root ∉ c.tree.path q
  root : P T.root ∧ c.repository.idToObject.get? 0 = some c.root
  up : ∀ n p, P n → T.parent n = some p → P p
  copy : ∀ n, P n → ∃ x, c.repository.idToObject.get? (T.repository.getId n) = some x
  parent : ∀ n p x y, P n → T.parent n = some p →
    c.repository.idToObject.get? (T.repository.getId n) = some x →
      c.repository.idToObject.get? (T.repository.getId p) = some y → c.tree.parent x = some y
  only : ∀ i x, c.repository.idToObject.get? i = some x → ∃ n, i = T.repository.getId n ∧
    (P n ∨ H n ∧ c.root ∉ c.tree.path x ∧ ∃ q ∈ c.queued, q ∈ c.tree.path x)

namespace Mirror

variable {S N : Type} [DecidableEq N] {T : ServerTree S N} {P H : N → Prop} {c : ReplicaClient}

theorem getObject (h : Mirror T P H c) (i : Int) :
    c.repository.getObject c.isInstanceValid i = (c.repository.idToObject.get? i, c.repository) :=
  Repository.getObject_of_valid fun x hx => (h.valid i x hx).1

theorem inj (h : Mirror T P H c) {n m : N} {x : c.Node}
    (hn : c.repository.idToObject.get? (T.repository.getId n) = some x)
    (hm : c.repository.idToObject.get? (T.repository.getId m) = some x) : n = m := by
  have hid := (h.inverse _ _).2 hn
  rw [(h.inverse _ _).2 hm, Option.some.injEq] at hid
  exact T.getId_inj hid.symm

/-- Above the copy of a node are the copies of the nodes above it: by induction from the root. -/
theorem mem_path_iff (h : Mirror T P H c) {n m : N} {x y : c.Node} (hP : P n)
    (hx : c.repository.idToObject.get? (T.repository.getId n) = some x)
    (hy : c.repository.idToObject.get? (T.repository.getId m) = some y) :
    y ∈ c.tree.path x ↔ m ∈ T.path n := by
  induction n using T.parent_induction generalizing x with
  | h n ih =>
    have hself : y = x ↔ m = n := by
      constructor
      · intro he
        exact h.inj (he ▸ hy) hx
      · intro he
        rw [he, hx, Option.some.injEq] at hy
        exact hy.symm
    cases hp : T.parent n with
    | none =>
      have hr := T.parent_eq_none_iff.1 hp
      have hroot := h.root.2
      rw [← T.root_id, ← hr, hx, Option.some.injEq] at hroot
      rw [Forest.path_of_root hp, hroot, Forest.path_of_root h.root_parent, List.mem_singleton,
        List.mem_singleton, ← hroot, hself]
    | some p =>
      obtain ⟨z, hz⟩ := h.copy p (h.up n p hP hp)
      rw [Forest.path_of_parent hp, Forest.path_of_parent (h.parent n p x z hP hp hx hz),
        List.mem_cons, List.mem_cons, hself, ih p hp (h.up n p hP hp) hz]

theorem root_mem_path (h : Mirror T P H c) {n : N} {x : c.Node} (hP : P n)
    (hx : c.repository.idToObject.get? (T.repository.getId n) = some x) :
    c.root ∈ c.tree.path x := by
  have hroot := h.root.2
  rw [← T.root_id] at hroot
  exact (h.mem_path_iff hP hx hroot).2 (T.under_root n)

theorem not_mem_path_of_queued (h : Mirror T P H c) {n : N} {x q : c.Node} (hP : P n)
    (hx : c.repository.idToObject.get? (T.repository.getId n) = some x) (hq : q ∈ c.queued) :
    q ∉ c.tree.path x := by
  intro hm
  have hout := h.queued q hq
  rcases Forest.mem_path_total hm (h.root_mem_path hP hx) with hqr | hrq
  · rw [Forest.path_of_root h.root_parent, List.mem_singleton] at hqr
    rw [hqr] at hout
    exact hout (Forest.self_mem_path _)
  · exact hout hrq

/-- What the repository has is a copy exactly if it is in the tree. -/
theorem inTree_iff (h : Mirror T P H c) {n : N} {x : c.Node}
    (hx : c.repository.idToObject.get? (T.repository.getId n) = some x) :
    c.root ∈ c.tree.path x ↔ P n := by
  constructor
  · intro hm
    obtain ⟨m, hid, hm'⟩ := h.only _ x hx
    rw [← T.getId_inj hid] at hm'
    rcases hm' with hP | ⟨_, hout, _⟩
    · exact hP
    · exact absurd hm hout
  · intro hP
    exact h.root_mem_path hP hx

theorem congr {P' H' : N → Prop} (h : Mirror T P H c) (hP : ∀ n, P' n ↔ P n)
    (hH : ∀ n, H n → H' n) : Mirror T P' H' c where
  inverse := h.inverse
  valid := h.valid
  root_parent := h.root_parent
  queued := h.queued
  root := ⟨(hP _).2 h.root.1, h.root.2⟩
  up n p hn hp := (hP p).2 (h.up n p ((hP n).1 hn) hp)
  copy n hn := h.copy n ((hP n).1 hn)
  parent n p x y hn := h.parent n p x y ((hP n).1 hn)
  only i x hx := by
    obtain ⟨n, hi, hn⟩ := h.only i x hx
    exact ⟨n, hi, hn.imp (hP n).2 fun hn => ⟨hH n hn.1, hn.2⟩⟩

theorem up_path (h : Mirror T P H c) {n a : N} (hP : P n) (ha : a ∈ T.path n) : P a := by
  induction n using T.parent_induction with
  | h n ih =>
    rcases Forest.mem_path_iff.1 ha with he | ⟨p, hp, hm⟩
    · exact he ▸ hP
    · exact ih p hp (h.up n p hP hp) hm

theorem detach (h : Mirror T P H c) {s : N} {x : c.Node} (hs : s ≠ T.root) (hP : P s)
    (hx : c.repository.idToObject.get? (T.repository.getId s) = some x) :
    Mirror T (fun n => P n ∧ s ∉ T.path n) (fun n => H n ∨ P n ∧ s ∈ T.path n) { c with
      tree := c.tree.detach x
      queued := c.queued ++ [x] } := by
  have hroot := h.root.2
  have hxr : c.root ≠ x := by
    intro he
    rw [he, ← T.root_id] at hroot
    exact hs (h.inj hx hroot)
  have hxpath : x ∉ c.tree.path c.root := by
    rw [Forest.path_of_root h.root_parent, List.mem_singleton]
    exact hxr.symm
  have hcut (y : c.Node) (hy : x ∈ c.tree.path y) : c.root ∉ (c.tree.detach x).path y := by
    rw [Forest.mem_path_detach hy]
    exact fun hm => hxpath hm.2
  apply Mirror.mk
  · exact h.inverse
  · exact h.valid
  · exact (Forest.parent_detach_of_ne hxr).trans h.root_parent
  · intro q hq
    rcases List.mem_append.1 hq with hq | hq
    · by_cases hm : x ∈ c.tree.path q
      · exact hcut q hm
      · have hout := h.queued q hq
        rw [← Forest.path_detach_of_not_mem hm] at hout
        exact hout
    · rw [List.mem_singleton.1 hq]
      exact hcut x (Forest.self_mem_path x)
  · refine ⟨⟨h.root.1, ?_⟩, hroot⟩
    rw [Forest.path_of_root T.parent_root, List.mem_singleton]
    exact hs
  · intro n p hn hp
    refine ⟨h.up n p hn.1 hp, fun hm => hn.2 ?_⟩
    rw [Forest.path_of_parent hp]
    exact List.mem_cons_of_mem _ hm
  · intro n hn
    exact h.copy n hn.1
  · intro n p y z hn hp hy hz
    have hne : y ≠ x := by
      intro he
      rw [he] at hy
      apply hn.2
      rw [← h.inj hy hx]
      exact T.self_mem_path n
    exact (Forest.parent_detach_of_ne hne).trans (h.parent n p y z hn.1 hp hy hz)
  · intro i y hy
    obtain ⟨n, rfl, hn⟩ := h.only i y hy
    refine ⟨n, rfl, ?_⟩
    rcases hn with hPn | ⟨hHn, hout, q, hq, hqy⟩
    · by_cases hsn : s ∈ T.path n
      · have hxy := (h.mem_path_iff hPn hy hx).2 hsn
        refine .inr ⟨.inr ⟨hPn, hsn⟩, hcut y hxy, x, ?_, ?_⟩
        · exact List.mem_append_right _ (List.mem_singleton_self x)
        · exact (Forest.mem_path_detach hxy).2 ⟨hxy, Forest.self_mem_path x⟩
      · exact .inl ⟨hPn, hsn⟩
    · have hxy : x ∉ c.tree.path y := fun hm =>
        hout (Forest.mem_path_trans hm (h.root_mem_path hP hx))
      have hsame := Forest.path_detach_of_not_mem hxy
      refine .inr ⟨.inl hHn, ?_, q, List.mem_append_left _ hq, ?_⟩
      · exact fun hm => hout (hsame ▸ hm)
      · exact hsame.symm ▸ hqy

theorem removeNode (h : Mirror T P H c) {s : N} (hs : s ≠ T.root) :
    Mirror T (fun n => P n ∧ s ∉ T.path n) (fun n => H n ∨ P n ∧ s ∈ T.path n)
      (c.removeNode (T.repository.getId s)) := by
  have hgone (hP : ¬ P s) (n : N) : P n ∧ s ∉ T.path n ↔ P n :=
    ⟨fun hn => hn.1, fun hn => ⟨hn, fun hm => hP (h.up_path hn hm)⟩⟩
  rw [ReplicaClient.removeNode, h.getObject]
  cases hx : c.repository.idToObject.get? (T.repository.getId s) with
  | none =>
    have hP : ¬ P s := by
      intro hP
      obtain ⟨x, hx'⟩ := h.copy s hP
      rw [hx] at hx'
      cases hx'
    exact h.congr (hgone hP) (fun n hn => .inl hn)
  | some x =>
    have hin : c.isInsideTree x = true ↔ P s := by
      rw [ReplicaClient.isInsideTree, decide_eq_true_eq]
      exact h.inTree_iff hx
    by_cases hP : P s
    · simp only [if_pos (hin.2 hP)]
      exact h.detach hs hP hx
    · simp only [if_neg (mt hin.1 hP)]
      exact h.congr (hgone hP) (fun n hn => .inl hn)

/-- One removal after the other: by induction on the nodes, in whatever order. -/
theorem removeNodes (removed : List N) (hs : ∀ s ∈ removed, s ≠ T.root)
    (h : Mirror T P H c) :
    Mirror T (fun n => P n ∧ ∀ s ∈ removed, s ∉ T.path n)
      (fun n => H n ∨ P n ∧ ∃ s ∈ removed, s ∈ T.path n)
      ((removed.map T.repository.getId).foldl ReplicaClient.removeNode c) := by
  induction removed generalizing P H c with
  | nil => exact h.congr (fun n => by simp) (fun n hn => .inl hn)
  | cons s removed ih =>
    rw [List.map_cons, List.foldl_cons]
    have hfirst := h.removeNode (hs s List.mem_cons_self)
    refine (ih (fun s' hs' => hs s' (List.mem_cons_of_mem _ hs')) hfirst).congr ?_ ?_
    · intro n
      rw [List.forall_mem_cons, and_assoc]
    · rintro n ((hn | ⟨hn, hm⟩) | ⟨⟨hn, _⟩, s', hs', hm⟩)
      · exact .inl hn
      · exact .inr ⟨hn, s, List.mem_cons_self, hm⟩
      · exact .inr ⟨hn, s', List.mem_cons_of_mem _ hs', hm⟩

theorem freed_iff (h : Mirror T P H c) {n : N} {x : c.Node}
    (hx : c.repository.idToObject.get? (T.repository.getId n) = some x) :
    c.freed x = true ↔ ¬ P n := by
  rw [ReplicaClient.freed, List.any_eq_true]
  simp only [decide_eq_true_eq]
  constructor
  · rintro ⟨q, hq, hm⟩ hP
    exact h.not_mem_path_of_queued hP hx hq hm
  · intro hP
    obtain ⟨m, hid, hm⟩ := h.only _ x hx
    rw [← T.getId_inj hid] at hm
    exact (hm.resolve_left hP).2.2

theorem frameEnd (h : Mirror T P H c) : Mirror T P (fun _ => False) c.frameEnd := by
  obtain ⟨hinverse, hids⟩ := h.inverse.removeObjects
    (c.repository.objectToId.keys.filter fun n => c.freed n && c.listening n)
  have hid (n : N) (x : c.Node) :
      c.frameEnd.repository.idToObject.get? (T.repository.getId n) = some x ↔
        c.repository.idToObject.get? (T.repository.getId n) = some x ∧ P n := by
    refine (hids _ x).trans (and_congr_right fun hx => ?_)
    have hkey : x ∈ c.repository.objectToId.keys :=
      (Dict.mem_iff_get? _).2 ⟨_, (h.inverse _ _).2 hx⟩
    rw [List.mem_filter, Bool.and_eq_true, (h.valid _ x hx).2, h.freed_iff hx]
    simp only [hkey, and_true, true_and, not_not]
  have hfind (i : Int) (x : c.Node) (hx : c.frameEnd.repository.idToObject.get? i = some x) :
      ∃ n, i = T.repository.getId n := by
    obtain ⟨n, hn, _⟩ := h.only i x ((hids i x).1 hx).1
    exact ⟨n, hn⟩
  apply Mirror.mk
  · exact hinverse
  · intro i x hx
    obtain ⟨n, rfl⟩ := hfind i x hx
    obtain ⟨hold, hP⟩ := (hid n x).1 hx
    refine ⟨?_, (h.valid _ x hold).2⟩
    have hkept : c.freed x = false := by
      rw [← Bool.not_eq_true, h.freed_iff hold, not_not]
      exact hP
    change (c.isInstanceValid x && !c.freed x) = true
    rw [(h.valid _ x hold).1, hkept]
    rfl
  · exact h.root_parent
  · intro q hq
    cases hq
  · refine ⟨h.root.1, ?_⟩
    have hroot := h.root.2
    rw [← T.root_id] at hroot ⊢
    exact (hid _ _).2 ⟨hroot, h.root.1⟩
  · exact h.up
  · intro n hn
    obtain ⟨x, hx⟩ := h.copy n hn
    exact ⟨x, (hid n x).2 ⟨hx, hn⟩⟩
  · intro n p x y hn hp hx hy
    exact h.parent n p x y hn hp ((hid n x).1 hx).1 ((hid p y).1 hy).1
  · intro i x hx
    obtain ⟨n, rfl⟩ := hfind i x hx
    exact ⟨n, rfl, .inl ((hid n x).1 hx).2⟩

theorem frameEnd_made (h : Mirror T P H c) {X : UpdateSource T} {visible : List N}
    (hmade : X.Made visible c) : X.Made visible c.frameEnd := by
  obtain ⟨_, hids⟩ := h.inverse.removeObjects
    (c.repository.objectToId.keys.filter fun n => c.freed n && c.listening n)
  have hless := hmade.of_repository fun i x hx => ((hids i x).1 hx).1
  exact ⟨hless.owner, hless.resource⟩

theorem born_get? (c : ReplicaClient) (i : Int) (x : BatchNode c.Node) :
    c.repository.born.idToObject.get? i = some x ↔
      ∃ y, c.repository.idToObject.get? i = some y ∧ x = .existing y := by
  rw [Repository.born, Dict.get?_mapValues, Option.map_eq_some_iff]
  simp only [eq_comm]

theorem born_valid (h : Mirror T P H c) {load : Int → Option Resource} (i : Int)
    (x : BatchNode c.Node) (hx : c.repository.born.idToObject.get? i = some x) :
    (c.world load).isValid x = true := by
  obtain ⟨y, hy, rfl⟩ := (born_get? c i x).1 hx
  exact (h.valid i y hy).1

theorem born_getObject (h : Mirror T P H c) (load : Int → Option Resource) (i : Int) :
    (c.repository.born.getObject (c.world load).isValid i).1 =
      c.repository.born.idToObject.get? i := by
  rw [Repository.getObject_of_valid fun x hx => h.born_valid i x hx]

variable {X : UpdateSource T} {load : Int → Option Resource} {added : List N}

/-- Where a client can add registered nodes: it has none of what comes along, but the parents. -/
structure CanAdd (X : UpdateSource T) (P H : N → Prop) (added : List N) : Prop where
  registered : ∀ s ∈ added, X.registered s = true
  nodup : added.Nodup
  new : ∀ s ∈ added, ∀ m, X.Carries s m → ¬ P m ∧ ¬ H m
  parent : ∀ s ∈ added, ∀ p, T.parent s = some p → P p ∨ ∃ s' ∈ added, X.Carries s' p

theorem CanAdd.born_none (ha : CanAdd X P H added) (h : Mirror T P H c) {s m : N}
    (hs : s ∈ added) (hm : X.Carries s m) :
    c.repository.born.idToObject.get? (T.repository.getId m) = none := by
  rw [Option.eq_none_iff_forall_ne_some]
  intro x hx
  obtain ⟨y, hy, _⟩ := (born_get? c _ x).1 hx
  obtain ⟨n, hid, hn⟩ := h.only _ y hy
  rw [← T.getId_inj hid] at hn
  obtain ⟨hP, hH⟩ := ha.new s hs m hm
  rcases hn with hn | ⟨hn, _⟩
  · exact hP hn
  · exact hH hn

theorem CanAdd.batch (ha : CanAdd X P H added) (h : Mirror T P H c) (hX : X.Replicable)
    (hload : X.LoadsAs load) :
    (c.world load).Batch c.repository.born (added.filterMap X.addData) := by
  apply UpdateSource.batch_of_added hX hload
  · intro i x hx
    obtain ⟨y, _, hxy⟩ := (born_get? c i x).1 hx
    exact ⟨y, hxy⟩
  · exact ha.registered
  · exact ha.nodup
  · intro s hs m hm
    rw [h.born_getObject]
    exact ha.born_none h hs hm

theorem stands_iff (h : Mirror T P H c) (hX : X.Replicable) (hload : X.LoadsAs load)
    (hreg : ∀ s ∈ added, X.registered s = true) (i : Int) (x : BatchNode c.Node) :
    (c.world load).Stands c.repository.born (added.filterMap X.addData) i x ↔
      (∃ s ∈ added, ∃ path m, X.getNode s path = some m ∧ X.Carries s m ∧
          i = T.repository.getId m ∧ x = .created (T.repository.getId s) path) ∨
        ∃ y, c.repository.idToObject.get? i = some y ∧ x = .existing y := by
  have hload' : X.LoadsAs (c.world load).load := hload
  rw [BatchWorld.Stands, h.born_getObject, born_get?]
  apply or_congr_left
  constructor
  · rintro ⟨e, he, hx⟩
    obtain ⟨s, hs, _, hd⟩ := (UpdateSource.mem_entries hX hload' hreg).1 he
    exact ⟨s, hs, (hd.registers i x).1 hx⟩
  · rintro ⟨s, hs, hx⟩
    obtain ⟨e, he, hd⟩ := UpdateSource.exists_describes hX hload' (hreg s hs)
    exact ⟨e, (UpdateSource.mem_entries hX hload' hreg).2 ⟨s, hs, he, hd⟩, (hd.registers i x).2 hx⟩

section Adding

variable {s : BatchState c.Node}
  (hs : (c.world load).Updated c.repository.born c.tree (added.filterMap X.addData) s)

include hs

theorem added_existing (y : c.Node) :
    s.tree.parent (.existing y) = (c.tree.parent y).map .existing := by
  apply hs.settled.same
  · intro e _ parent _ hnode
    cases hnode
  · rintro ⟨e, _, path, hnode, _⟩
    cases hnode

theorem added_path (y : c.Node) :
    s.tree.path (.existing y) = (c.tree.path y).map .existing := by
  induction y using c.tree.parent_induction with
  | h y ih =>
    have hparent := added_existing hs y
    cases hp : c.tree.parent y with
    | none =>
      rw [hp] at hparent
      rw [Forest.path_of_root hp, Forest.path_of_root hparent]
      rfl
    | some z =>
      rw [hp] at hparent
      rw [Forest.path_of_parent hp, Forest.path_of_parent hparent, ih z hp]
      rfl

theorem added_mem_path (x y : c.Node) :
    BatchNode.existing x ∈ s.tree.path (.existing y) ↔ x ∈ c.tree.path y := by
  rw [added_path hs, List.mem_map_of_injective BatchNode.existing_injective]

theorem added_created (h : Mirror T P H c) (hX : X.Replicable) (hload : X.LoadsAs load)
    (ha : CanAdd X P H added) {t n p : N} {path : ScenePath} {y : BatchNode c.Node}
    (ht : t ∈ added) (hget : X.getNode t path = some n) (hn : X.Carries t n)
    (hp : T.parent n = some p)
    (hy : s.repository.idToObject.get? (T.repository.getId p) = some y) :
    s.tree.parent (.created (T.repository.getId t) path) = some y := by
  have hload' : X.LoadsAs (c.world load).load := hload
  have hbatch := ha.batch h hX hload
  obtain ⟨e, he, hd⟩ := UpdateSource.exists_describes hX hload' (ha.registered t ht)
  have hmem := (UpdateSource.mem_entries hX hload' ha.registered).2 ⟨t, ht, he, hd⟩
  rw [hs.ids] at hy
  cases path with
  | nil =>
    cases hget
    have hlode := hs.settled.hangs e hmem y (hd.parentId p hp ▸ hy)
    rw [BatchWorld.lodeOf, hd.rootId] at hlode
    exact hlode
  | cons name path =>
    obtain ⟨q, hq, hparent, hc⟩ := hX.carries_above (ha.registered t ht) hn hget
    rw [hp, Option.some.injEq] at hparent
    rw [← hparent] at hq hc
    have hone := hbatch.oneToOne h.inverse.born fun i x hx => h.born_valid i x hx
    have hstands := (h.stands_iff hX hload ha.registered (T.repository.getId p)
      (.created (T.repository.getId t) path)).2 (.inl ⟨t, ht, path, p, hq, hc, rfl, rfl⟩)
    have hregisters := (hd.registers (T.repository.getId n)
      (.created (T.repository.getId t) (name :: path))).2 ⟨_, n, hget, hn, rfl, rfl⟩
    rw [hone.node _ _ _ hy hstands]
    apply hs.settled.same
    · intro e' _ parent _ hnode
      cases (BatchNode.created.inj hnode).2
    · exact hbatch.not_dead_of_registers hmem hregisters

theorem added_ids (h : Mirror T P H c) (hX : X.Replicable) (hload : X.LoadsAs load)
    (ha : CanAdd X P H added) (i : Int) (x : BatchNode c.Node) :
    s.repository.idToObject.get? i = some x ↔
      (∃ t ∈ added, ∃ path m, X.getNode t path = some m ∧ X.Carries t m ∧
          i = T.repository.getId m ∧ x = .created (T.repository.getId t) path) ∨
        ∃ y, c.repository.idToObject.get? i = some y ∧ x = .existing y :=
  (hs.ids i x).trans (h.stands_iff hX hload ha.registered i x)

omit hs in
theorem CanAdd.up (ha : CanAdd X P H added) (h : Mirror T P H c) (hX : X.Replicable) (n p : N)
    (hn : P n ∨ ∃ t ∈ added, X.Carries t n) (hp : T.parent n = some p) :
    P p ∨ ∃ t ∈ added, X.Carries t p := by
  rcases hn with hn | ⟨t, ht, hn⟩
  · exact .inl (h.up n p hn hp)
  · obtain ⟨path, hget⟩ := UpdateSource.exists_getNode_of_carries hn
    cases path with
    | nil =>
      cases hget
      exact ha.parent n ht p hp
    | cons name path =>
      obtain ⟨q, _, hparent, hc⟩ := hX.carries_above (ha.registered t ht) hn hget
      rw [hp, Option.some.injEq] at hparent
      exact .inr ⟨t, ht, hparent ▸ hc⟩

omit hs in
theorem added_old (h : Mirror T P H c) (ha : CanAdd X P H added) {n : N} {y : c.Node}
    (hn : P n ∨ ∃ t ∈ added, X.Carries t n)
    (hy : c.repository.idToObject.get? (T.repository.getId n) = some y) : P n := by
  rcases hn with hn | ⟨t, ht, hn⟩
  · exact hn
  · have hnone := ha.born_none h ht hn
    rw [(born_get? c _ (.existing y)).2 ⟨y, hy, rfl⟩] at hnone
    cases hnone

theorem added_copy (h : Mirror T P H c) (hX : X.Replicable) (hload : X.LoadsAs load)
    (ha : CanAdd X P H added) (n : N) (hn : P n ∨ ∃ t ∈ added, X.Carries t n) :
    ∃ x, s.repository.idToObject.get? (T.repository.getId n) = some x := by
  rcases hn with hn | ⟨t, ht, hn⟩
  · obtain ⟨y, hy⟩ := h.copy n hn
    exact ⟨_, (added_ids hs h hX hload ha _ _).2 (.inr ⟨y, hy, rfl⟩)⟩
  · obtain ⟨path, hget⟩ := UpdateSource.exists_getNode_of_carries hn
    exact ⟨_, (added_ids hs h hX hload ha _ _).2 (.inl ⟨t, ht, path, n, hget, hn, rfl, rfl⟩)⟩

theorem added_parent (h : Mirror T P H c) (hX : X.Replicable) (hload : X.LoadsAs load)
    (ha : CanAdd X P H added) (n p : N) (x y : BatchNode c.Node)
    (hn : P n ∨ ∃ t ∈ added, X.Carries t n) (hp : T.parent n = some p)
    (hx : s.repository.idToObject.get? (T.repository.getId n) = some x)
    (hy : s.repository.idToObject.get? (T.repository.getId p) = some y) :
    s.tree.parent x = some y := by
  rcases (added_ids hs h hX hload ha _ x).1 hx with ⟨t, ht, path, m, hget, hm, hid, rfl⟩ |
    ⟨x, hxold, rfl⟩
  · rw [← T.getId_inj hid] at hget hm
    exact added_created hs h hX hload ha ht hget hm hp hy
  · have hPn := added_old h ha hn hxold
    rcases (added_ids hs h hX hload ha _ y).1 hy with ⟨t, ht, path, m, _, hm, hid, _⟩ |
      ⟨y, hyold, rfl⟩
    · rw [← T.getId_inj hid] at hm
      exact absurd (h.up n p hPn hp) (ha.new t ht p hm).1
    · rw [added_existing hs, h.parent n p x y hPn hp hxold hyold]
      rfl

/-- Every copy is in the tree: by induction from the root. -/
theorem added_inTree (h : Mirror T P H c) (hX : X.Replicable) (hload : X.LoadsAs load)
    (ha : CanAdd X P H added) (n : N) (x : BatchNode c.Node)
    (hn : P n ∨ ∃ t ∈ added, X.Carries t n)
    (hx : s.repository.idToObject.get? (T.repository.getId n) = some x) :
    .existing c.root ∈ s.tree.path x := by
  induction n using T.parent_induction generalizing x with
  | h n ih =>
    cases hp : T.parent n with
    | none =>
      have hroot := T.parent_eq_none_iff.1 hp
      rcases (added_ids hs h hX hload ha _ x).1 hx with ⟨t, ht, path, m, _, hm, hid, _⟩ |
        ⟨y, hy, rfl⟩
      · rw [← T.getId_inj hid] at hm
        exact absurd hroot (hX.ne_root (ha.registered t ht) hm)
      · rw [hroot, T.root_id, h.root.2, Option.some.injEq] at hy
        rw [hy]
        exact Forest.self_mem_path _
    | some p =>
      have hup := ha.up h hX n p hn hp
      obtain ⟨y, hy⟩ := added_copy hs h hX hload ha p hup
      rw [Forest.path_of_parent (added_parent hs h hX hload ha n p x y hn hp hx hy)]
      exact List.mem_cons_of_mem _ (ih p hp y hup hy)

theorem withBatch (h : Mirror T P H c) (hX : X.Replicable) (hload : X.LoadsAs load)
    (ha : CanAdd X P H added) :
    Mirror T (fun n => P n ∨ ∃ t ∈ added, X.Carries t n) H (c.withBatch load s) := by
  have hids := added_ids hs h hX hload ha
  apply Mirror.mk
  · exact hs.inverse
  · intro i (x : BatchNode c.Node) hx
    have hheard : (c.world load).isValid x = true ∧
        (c.hears x = true ∨ .existing c.root ∈ s.tree.path x) := by
      rcases (hids i x).1 hx with ⟨t, ht, path, m, _, hm, rfl, rfl⟩ | ⟨y, hy, rfl⟩
      · exact ⟨rfl, .inr (added_inTree hs h hX hload ha m _ (.inr ⟨t, ht, hm⟩) hx)⟩
      · obtain ⟨hvalid, hlistening⟩ := h.valid i y hy
        exact ⟨hvalid, .inl hlistening⟩
    refine ⟨hheard.1, ?_⟩
    change (c.hears x || decide (.existing c.root ∈ s.tree.path x)) = true
    rw [Bool.or_eq_true, decide_eq_true_eq]
    exact hheard.2
  · change s.tree.parent (.existing c.root) = none
    rw [added_existing hs, h.root_parent]
    rfl
  · intro (q : BatchNode c.Node) hq
    change BatchNode.existing c.root ∉ s.tree.path q
    have hmem : q ∈ c.queued.map .existing ++ s.queuedForDeletion := hq
    rcases List.mem_append.1 hmem with hold | hnew
    · obtain ⟨old, holdq, rfl⟩ := List.mem_map.1 hold
      rw [added_mem_path hs]
      exact h.queued old holdq
    · obtain ⟨hparent, root, path, hnode⟩ := hs.queued q hnew
      rw [Forest.path_of_root hparent, List.mem_singleton, hnode]
      intro he
      cases he
  · exact ⟨.inl h.root.1, (hids _ _).2 (.inr ⟨c.root, h.root.2, rfl⟩)⟩
  · exact ha.up h hX
  · exact added_copy hs h hX hload ha
  · exact added_parent hs h hX hload ha
  · intro i x hx
    rcases (hids i x).1 hx with ⟨t, ht, path, m, _, hm, rfl, _⟩ | ⟨y, hy, rfl⟩
    · exact ⟨m, rfl, .inl (.inr ⟨t, ht, hm⟩)⟩
    · obtain ⟨n, hi, hn⟩ := h.only i y hy
      refine ⟨n, hi, hn.imp .inl ?_⟩
      rintro ⟨hH, hout, q, hq, hqy⟩
      refine ⟨hH, fun hm => hout ((added_mem_path hs _ _).1 hm), .existing q, ?_, ?_⟩
      · exact List.mem_append_left _ (List.mem_map_of_mem hq)
      · exact (added_mem_path hs q y).2 hqy

/-- What an id stands for that comes along with what the client sees now: what it stood for, or
what has been made of an entry. -/
theorem added_part (h : Mirror T P H c) (hX : X.Replicable) (hload : X.LoadsAs load)
    (ha : CanAdd X P H added) {old : List N} (hold : ∀ t ∈ old, ∀ m, X.Carries t m → P m)
    {t n : N} {path : ScenePath} {x : BatchNode c.Node} (ht : t ∈ old ++ added)
    (hget : X.getNode t path = some n) (hn : X.Carries t n)
    (hx : s.repository.idToObject.get? (T.repository.getId n) = some x) :
    (∃ y, t ∈ old ∧ c.repository.idToObject.get? (T.repository.getId n) = some y ∧
      x = .existing y) ∨ t ∈ added ∧ x = .created (T.repository.getId t) path := by
  rcases (added_ids hs h hX hload ha _ x).1 hx with ⟨t', ht', path', m, hget', hm, hid, rfl⟩ |
    ⟨y, hy, rfl⟩
  · rw [← T.getId_inj hid] at hget' hm
    rcases List.mem_append.1 ht with ht | ht
    · exact absurd (hold t ht n hn) (ha.new t' ht' n hm).1
    · have htt := hX.carrier_unique (ha.registered t' ht') (ha.registered t ht) hm hn
      rw [htt] at hget' ⊢
      rw [UpdateSource.getNode_inj hget' hget]
      exact .inr ⟨ht, rfl⟩
  · rcases List.mem_append.1 ht with ht | ht
    · exact .inl ⟨y, ht, hy, rfl⟩
    · have hnone := ha.born_none h ht hn
      rw [(born_get? c _ (.existing y)).2 ⟨y, hy, rfl⟩] at hnone
      cases hnone

theorem added_root (hX : X.Replicable) (hload : X.LoadsAs load) (ha : CanAdd X P H added) {t : N}
    (ht : t ∈ added) :
    s.metaOwner.get? (.created (T.repository.getId t) []) = some (X.owner t) ∧
      s.resource.get? (.created (T.repository.getId t) []) = some (X.uid t) := by
  have hload' : X.LoadsAs (c.world load).load := hload
  obtain ⟨e, he, hd⟩ := UpdateSource.exists_describes hX hload' (ha.registered t ht)
  have hmem := (UpdateSource.mem_entries hX hload' ha.registered).2 ⟨t, ht, he, hd⟩
  have howner := hs.metaOwner e hmem
  have hresource := hs.resource e hmem
  obtain ⟨hof, huid⟩ := UpdateSource.addData_made he
  rw [BatchWorld.lodeOf, hd.rootId] at howner hresource
  rw [howner, hresource, hof, huid]
  exact ⟨rfl, rfl⟩

theorem withBatch_made (h : Mirror T P H c) (hX : X.Replicable) (hload : X.LoadsAs load)
    (ha : CanAdd X P H added) {old : List N} (hold : ∀ t ∈ old, ∀ m, X.Carries t m → P m)
    (hmade : X.Made old c) : X.Made (old ++ added) (c.withBatch load s) := by
  apply UpdateSource.Made.mk
  · intro t ht x hx
    have hself : X.getNode t [] = some t := rfl
    rcases added_part hs h hX hload ha hold ht hself (UpdateSource.carries_self t) hx with
      ⟨y, htold, hy, rfl⟩ | ⟨htadded, rfl⟩
    · exact hmade.owner t htold y hy
    · exact (added_root hs hX hload ha htadded).1
  · intro t ht path n x hget hn hx
    rcases added_part hs h hX hload ha hold ht hget hn hx with ⟨y, htold, hy, rfl⟩ |
      ⟨htadded, rfl⟩
    · exact hmade.resource t htold path n y hget hn hy
    · change (s.resource.get? (.created (T.repository.getId t) [])).map _ = _
      rw [(added_root hs hX hload ha htadded).2, Option.map_some]

end Adding

theorem addNodes (h : Mirror T P H c) (hX : X.Replicable) (hload : X.LoadsAs load)
    (ha : CanAdd X P H added) {old : List N} (hold : ∀ t ∈ old, ∀ m, X.Carries t m → P m)
    (hmade : X.Made old c) : ∃ c', c.addNodes load (added.filterMap X.addData) = some c' ∧
      Mirror T (fun n => P n ∨ ∃ t ∈ added, X.Carries t n) H c' ∧ X.Made (old ++ added) c' := by
  have hload' : X.LoadsAs (c.world load).load := hload
  have hin (e : AddedNode) (he : e ∈ added.filterMap X.addData) : (c.world load).InBounds e := by
    obtain ⟨t, _, _, hd⟩ := (UpdateSource.mem_entries hX hload' ha.registered).1 he
    exact hd.inBounds
  obtain ⟨s, hs, hupdated⟩ := BatchWorld.exists_updated (F := c.tree)
    (ha.batch h hX hload) hin h.inverse.born fun i x hx => h.born_valid i x hx
  refine ⟨c.withBatch load s, ?_, withBatch hupdated h hX hload ha,
    withBatch_made hupdated h hX hload ha hold hmade⟩
  rw [ReplicaClient.addNodes, hs, Option.map_some]

end Mirror

namespace UpdateSource

variable {S N : Type} [DecidableEq N] {T : ServerTree S N} {X : UpdateSource T}
  {load : Int → Option Resource} {codec : VariantCodec}

/-- At first the client has its root and the services, under the ids that the server's have. -/
def Starts (T : ServerTree S N) (c : ReplicaClient) : Prop :=
  Mirror T (fun n => T.alwaysVisible n = true) (fun _ => False) c

theorem Replicable.not_mem_path (hX : X.Replicable) {n a : N} (hn : T.alwaysVisible n = true)
    (ha : X.registered a = true) : a ∉ T.path n := by
  intro hm
  have halways := T.alwaysVisible_of_mem_path hn hm
  rw [hX.not_always a ha] at halways
  cases halways

variable {old new hidden : List N} {c : ReplicaClient}

/-- Once what is no longer visible has been removed, the client has the copies that stay. -/
theorem mirror_removed (hX : X.Replicable) (hold : X.Visible old) (hnew : X.Visible new)
    (h : Mirror T (X.HasCopy old) (fun n => ∃ t ∈ hidden, X.Carries t n) c) :
    Mirror T (X.HasCopy (old.filter (· ∈ new)))
      (fun n => ∃ t ∈ hidden ++ old.filter (· ∉ new), X.Carries t n)
      (((sorted T (old.filter (· ∉ new))).map T.repository.getId).foldl
        ReplicaClient.removeNode c) := by
  have hgone (t : N) : t ∈ sorted T (old.filter (· ∉ new)) ↔ t ∈ old ∧ t ∉ new := by
    rw [mem_sorted, List.mem_filter, decide_eq_true_eq]
  have hroot (t : N) (ht : t ∈ sorted T (old.filter (· ∉ new))) : t ≠ T.root :=
    hX.ne_root (hold.registered t ((hgone t).1 ht).1) (carries_self t)
  -- what is removed above a part of a scene is above the scene
  have hkept {s t n : N} (hs : s ∈ old) (hn : X.Carries s n)
      (ht : t ∈ sorted T (old.filter (· ∉ new))) (hm : t ∈ T.path n) : s ∉ new := by
    obtain ⟨htold, htnew⟩ := (hgone t).1 ht
    have hreg := hold.registered t htold
    have habove := hX.nearest s n (hold.registered s hs) hn t hm hreg
    exact fun hsnew => htnew (hnew.above s hsnew t habove hreg)
  refine (h.removeNodes _ hroot).congr (fun n => ?_) fun n hn => ?_
  · constructor
    · rintro (hn | ⟨s, hs, hn⟩)
      · refine ⟨.inl hn, fun t ht => ?_⟩
        exact hX.not_mem_path hn (hold.registered t ((hgone t).1 ht).1)
      · rw [List.mem_filter, decide_eq_true_eq] at hs
        exact ⟨.inr ⟨s, hs.1, hn⟩, fun t ht hm => hkept hs.1 hn ht hm hs.2⟩
    · rintro ⟨hn | ⟨s, hs, hn⟩, hstay⟩
      · exact .inl hn
      · refine .inr ⟨s, ?_, hn⟩
        rw [List.mem_filter, decide_eq_true_eq]
        refine ⟨hs, ?_⟩
        by_contra hno
        exact hstay s ((hgone s).2 ⟨hs, hno⟩) (carries_mem_path hn)
  · rcases hn with ⟨t, ht, hn⟩ | ⟨hn, t, ht, hm⟩
    · exact ⟨t, List.mem_append_left _ ht, hn⟩
    · rcases hn with hn | ⟨s, hs, hn⟩
      · exact absurd hm (hX.not_mem_path hn (hold.registered t ((hgone t).1 ht).1))
      · refine ⟨s, List.mem_append_right _ ?_, hn⟩
        rw [List.mem_filter, decide_eq_true_eq]
        exact ⟨hs, hkept hs hn ht hm⟩

theorem canAdd_shown (hX : X.Replicable) (hold : X.Visible old) (hnew : X.Visible new)
    (hhidden : ∀ n ∈ hidden, X.registered n = true)
    (hshown : ∀ n ∈ new, n ∉ old → n ∉ hidden) :
    Mirror.CanAdd X (X.HasCopy (old.filter (· ∈ new)))
      (fun n => ∃ t ∈ hidden ++ old.filter (· ∉ new), X.Carries t n)
      (sorted T (new.filter (· ∉ old))) := by
  have hadded (t : N) : t ∈ sorted T (new.filter (· ∉ old)) ↔ t ∈ new ∧ t ∉ old := by
    rw [mem_sorted, List.mem_filter, decide_eq_true_eq]
  have hreg (t : N) (ht : t ∈ sorted T (new.filter (· ∉ old))) : X.registered t = true :=
    hnew.registered t ((hadded t).1 ht).1
  refine ⟨hreg, nodup_sorted (hnew.nodup.filter _), fun s hs m hm => ⟨?_, ?_⟩, fun s hs p hp => ?_⟩
  · rintro (halways | ⟨t, ht, htm⟩)
    · exact hX.not_mem_path halways (hreg s hs) (carries_mem_path hm)
    · have hold' := (List.mem_filter.1 ht).1
      rw [← hX.carrier_unique (hreg s hs) (hold.registered t hold') hm htm] at hold'
      exact ((hadded s).1 hs).2 hold'
  · rintro ⟨t, ht, htm⟩
    obtain ⟨hsnew, hsold⟩ := (hadded s).1 hs
    rcases List.mem_append.1 ht with ht | ht
    · rw [← hX.carrier_unique (hreg s hs) (hhidden t ht) hm htm] at ht
      exact hshown s hsnew hsold ht
    · have hold' := (List.mem_filter.1 ht).1
      rw [← hX.carrier_unique (hreg s hs) (hold.registered t hold') hm htm] at hold'
      exact hsold hold'
  · rcases hX.parent_known s (hreg s hs) p hp with halways | ⟨t, ht, htp⟩
    · exact .inl (.inl halways)
    · have hmem : t ∈ T.path s := by
        rw [Forest.path_of_parent hp]
        exact List.mem_cons_of_mem _ (carries_mem_path htp)
      have htnew := hnew.above s ((hadded s).1 hs).1 t hmem ht
      by_cases htold : t ∈ old
      · refine .inl (.inr ⟨t, ?_, htp⟩)
        rw [List.mem_filter, decide_eq_true_eq]
        exact ⟨htold, htnew⟩
      · exact .inr ⟨t, (hadded t).2 ⟨htnew, htold⟩, htp⟩

/-- An update makes of a client with copies of what was visible one with copies of what is. -/
theorem mirror_updated (hX : X.Replicable) (hload : X.LoadsAs load) (hsend : X.Sendable codec)
    (hold : X.Visible old) (hnew : X.Visible new) (hhidden : ∀ n ∈ hidden, X.registered n = true)
    (hshown : ∀ n ∈ new, n ∉ old → n ∉ hidden)
    (h : Mirror T (X.HasCopy old) (fun n => ∃ t ∈ hidden, X.Carries t n) c)
    (hmade : X.Made old c) :
    ∃ c', (c.updateVisibility load codec (X.updateVisibility codec (new.filter (· ∉ old))
        (old.filter (· ∉ new)))) = some c' ∧ Mirror T (X.HasCopy new)
      (fun n => ∃ t ∈ hidden ++ old.filter (· ∉ new), X.Carries t n) c' ∧ X.Made new c' := by
  have hadded : (new.filter (· ∉ old)).Nodup ∧
      ∀ s ∈ new.filter (· ∉ old), X.registered s = true :=
    ⟨hnew.nodup.filter _, fun s hs => hnew.registered s (List.mem_filter.1 hs).1⟩
  have hremoved : (old.filter (· ∉ new)).Nodup ∧
      ∀ s ∈ old.filter (· ∉ new), X.registered s = true :=
    ⟨hold.nodup.filter _, fun s hs => hold.registered s (List.mem_filter.1 hs).1⟩
  have hread := decompress_updateVisibility hX hsend hadded hremoved
  have hkept (t : N) (ht : t ∈ old.filter (· ∈ new)) (m : N) (hm : X.Carries t m) :
      X.HasCopy (old.filter (· ∈ new)) m := .inr ⟨t, ht, hm⟩
  have hstays : X.Made (old.filter (· ∈ new)) (((sorted T (old.filter (· ∉ new))).map
      T.repository.getId).foldl ReplicaClient.removeNode c) :=
    (hmade.of_subset fun _ ht => (List.mem_filter.1 ht).1).removeNodes _
  obtain ⟨c', hc', hm, hmade'⟩ := (mirror_removed hX hold hnew h).addNodes hX hload
    (canAdd_shown hX hold hnew hhidden hshown) hkept hstays
  refine ⟨c', ?_, hm.congr (fun n => ?_) fun n hn => hn, hmade'.of_subset fun t ht => ?_⟩
  · simp only [ReplicaClient.updateVisibility, hread, hc']
  · simp only [HasCopy, mem_sorted, List.mem_filter, decide_eq_true_eq, or_assoc]
    apply or_congr_right
    constructor
    · rintro ⟨s, hs, hn⟩
      by_cases hsold : s ∈ old
      · exact .inl ⟨s, ⟨hsold, hs⟩, hn⟩
      · exact .inr ⟨s, ⟨hs, hsold⟩, hn⟩
    · rintro (⟨s, ⟨_, hs⟩, hn⟩ | ⟨s, ⟨hs, _⟩, hn⟩)
      · exact ⟨s, hs, hn⟩
      · exact ⟨s, hs, hn⟩
  · simp only [List.mem_append, mem_sorted, List.mem_filter, decide_eq_true_eq]
    by_cases htold : t ∈ old
    · exact .inl ⟨htold, ht⟩
    · exact .inr ⟨ht, htold⟩

theorem hasCopy_congr (hadded : new.filter (· ∉ old) = []) (hremoved : old.filter (· ∉ new) = [])
    (n : N) : X.HasCopy new n ↔ X.HasCopy old n := by
  simp only [List.filter_eq_nil_iff, decide_eq_true_eq, not_not] at hadded hremoved
  have hmem (s : N) : s ∈ new ↔ s ∈ old := ⟨hadded s, hremoved s⟩
  simp only [HasCopy, hmem]

/-- What holds in every state of a run. -/
structure Keeps (X : UpdateSource T) (s : ReplicaRun N) : Prop where
  visible : X.Visible s.visible
  hidden : ∀ n ∈ s.hidden, X.registered n = true
  mirror : ∃ c, s.client = some c ∧
    Mirror T (X.HasCopy s.visible) (fun n => ∃ t ∈ s.hidden, X.Carries t n) c ∧ X.Made s.visible c

theorem Keeps.step (hX : X.Replicable) (hload : X.LoadsAs load) (hsend : X.Sendable codec)
    (s : ReplicaRun N) (event : ReplicaEvent N) (h : X.Keeps s) (hf : X.Follows s event) :
    X.Keeps (X.replicaStep load codec s event) := by
  obtain ⟨c, hc, hm, hmade⟩ := h.mirror
  cases event with
  | frameEnd =>
    refine ⟨h.visible, ?_, c.frameEnd, ?_, hm.frameEnd.congr (fun _ => Iff.rfl) ?_,
      hm.frameEnd_made hmade⟩
    · intro n hn
      cases hn
    · rw [replicaStep, hc]
      rfl
    · intro n hn
      exact hn.elim
  | visibleNodes new =>
    obtain ⟨hnew, hshown⟩ := hf
    have hgone (n : N) (hn : n ∈ s.hidden ++ s.visible.filter (· ∉ new)) :
        X.registered n = true := by
      rcases List.mem_append.1 hn with hn | hn
      · exact h.hidden n hn
      · exact h.visible.registered n (List.mem_filter.1 hn).1
    by_cases hnone : new.filter (· ∉ s.visible) = [] ∧ s.visible.filter (· ∉ new) = []
    · have hsame (t : N) (ht : t ∈ new) : t ∈ s.visible := by
        simpa using List.filter_eq_nil_iff.1 hnone.1 t ht
      refine ⟨hnew, hgone, c, ?_, hm.congr (hasCopy_congr hnone.1 hnone.2) ?_,
        hmade.of_subset hsame⟩
      · simp only [replicaStep, updatePeerNodes, if_pos hnone, hc]
      · rintro n ⟨t, ht, hn⟩
        exact ⟨t, List.mem_append_left _ ht, hn⟩
    · obtain ⟨c', hc', hm'⟩ :=
        mirror_updated hX hload hsend h.visible hnew h.hidden hshown hm hmade
      refine ⟨hnew, hgone, c', ?_, hm'⟩
      simp only [replicaStep, updatePeerNodes, if_neg hnone, hc, Option.bind_some]
      exact hc'

theorem shows_iff {P H : N → Prop} (h : Mirror T P H c) (n : N) (x : c.Node) :
    Shows c (T.repository.getId n) x ↔
      P n ∧ c.repository.idToObject.get? (T.repository.getId n) = some x := by
  rw [Shows, h.getObject, ReplicaClient.isInsideTree, decide_eq_true_eq, and_comm]
  exact and_congr_left fun hx => h.inTree_iff hx

theorem replicates_of_mirror {visible : List N} {H : N → Prop}
    (h : Mirror T (X.HasCopy visible) H c) (hmade : X.Made visible c) :
    X.Replicates visible c := by
  refine ⟨fun n hn => ?_, fun s hs x hx => ?_, fun s hs path n x hget hn hx => ?_,
    fun id x hx => ?_, fun hqueued id x hx => ?_⟩
  · obtain ⟨x, hx⟩ := h.copy n hn
    refine ⟨x, (shows_iff h n x).2 ⟨hn, hx⟩, fun p hp => ?_⟩
    have hpcopy := h.up n p hn hp
    obtain ⟨y, hy⟩ := h.copy p hpcopy
    exact ⟨y, (shows_iff h p y).2 ⟨hpcopy, hy⟩, h.parent n p x y hn hp hx hy⟩
  · exact hmade.owner s hs x ((shows_iff h s x).1 hx).2
  · exact hmade.resource s hs path n x hget hn ((shows_iff h n x).1 hx).2
  · have hget := hx.1
    rw [h.getObject] at hget
    obtain ⟨n, rfl, _⟩ := h.only id x hget
    exact ⟨n, rfl, ((shows_iff h n x).1 hx).1⟩
  · rw [h.getObject] at hx
    obtain ⟨n, rfl, hn⟩ := h.only id x hx
    refine (shows_iff h n x).2 ⟨hn.resolve_right ?_, hx⟩
    rintro ⟨_, _, q, hq, _⟩
    rw [hqueued] at hq
    cases hq

/-- A client that gets all updates in order has, after each and at the end of each frame, copies of
what it should see and of no other node, below each other as on the server. -/
theorem clients_replicate (hX : X.Replicable) (hload : X.LoadsAs load) (hsend : X.Sendable codec)
    {c : ReplicaClient} (hstart : Starts T c) (events : List (ReplicaEvent N))
    (hf : Runs.Guarded (X.replicaStep load codec) X.Follows ⟨[], some c, []⟩ events) :
    Runs.Always (X.replicaStep load codec)
      (fun s => ∃ c, s.client = some c ∧ X.Replicates s.visible c) ⟨[], some c, []⟩ events := by
  have hkeeps : X.Keeps ⟨[], some c, []⟩ := by
    refine ⟨⟨List.nodup_nil, ?_, ?_⟩, ?_, c, rfl, hstart.congr (fun n => ?_) ?_, made_nil⟩
    · intro n hn
      cases hn
    · intro n hn
      cases hn
    · intro n hn
      cases hn
    · simp [HasCopy]
    · intro n hn
      exact hn.elim
  refine (Runs.always_of_guarded (Keeps.step hX hload hsend) hkeeps hf).mono fun s hs => ?_
  obtain ⟨c, hc, hm, hmade⟩ := hs.mirror
  exact ⟨c, hc, replicates_of_mirror hm hmade⟩

end UpdateSource

/-- A scene of two nodes. -/
def actorScene : PackedScene where
  states := [[[], ["Actor"]]]
  has path := path = [] ∨ path = ["Actor"]
  root_first := ⟨[["Actor"]], [], rfl⟩
  has_root := rfl

/-- The small tree, with its scene registered. -/
def smallSource : UpdateSource (smallTree (S := Unit) fun _ => none) where
  uid _ := 7
  scene
    | .scene => some actorScene
    | _ => none
  child
    | .scene, "Actor" => some .actor
    | _, _ => none
  registered n := n = .scene
  dominant _ := false
  owner _ := 1
  values _ := []
  child_parent {n name m} h := by
    split at h
    · cases h
      rfl
    · cases h
  child_name {n name name' m} h h' := by
    split at h
    · split at h'
      · rfl
      · cases h'
    · cases h

def loadActorScene (_ : Int) : Option Resource := some (.scene actorScene)

/-- A client that has nothing but its root. -/
def emptyClient : ReplicaClient where
  Node := Unit
  decEq := inferInstance
  repository := ⟨Dict.empty.set () 0, Dict.empty.set 0 (), 0⟩
  tree := .discrete
  root := ()
  isInstanceValid _ := true
  listening _ := true
  metaOwner _ := none
  resource _ := none
  queued := []

theorem smallSource_carries {s m : SmallNode} (hs : smallSource.registered s = true)
    (h : smallSource.Carries s m) : s = .scene ∧ (m = .scene ∨ m = .actor) := by
  have he : s = .scene := of_decide_eq_true hs
  rw [he] at h
  obtain ⟨path, hpath, hget, _⟩ := h
  have hcases : path = [] ∨ path = ["Actor"] := by
    simpa [actorScene] using hpath
  refine ⟨he, ?_⟩
  rcases hcases with rfl | rfl
  · exact .inl (Option.some.inj hget).symm
  · exact .inr (Option.some.inj hget).symm

theorem smallSource_replicable : smallSource.Replicable := by
  refine ⟨fun n hn => ?_, fun n hn p hp => ?_, fun n scene hscene name path hpath => ?_,
    fun n scene hscene path hpath => ?_, fun s m hs hm a ha hreg => ?_⟩
  · rw [of_decide_eq_true hn]
    rfl
  · rw [of_decide_eq_true hn] at hp
    cases hp
    exact .inl rfl
  · cases n with
    | scene =>
      cases hscene
      have hcases : name :: path = ["Actor"] := by simpa [actorScene] using hpath
      rw [(List.cons.inj hcases).2]
      exact List.mem_cons_self
    | root => cases hscene
    | actor => cases hscene
  · cases n with
    | scene =>
      cases hscene
      exact decide_eq_true (by simpa [actorScene] using hpath)
    | root => cases hscene
    | actor => cases hscene
  · obtain ⟨rfl, _⟩ := smallSource_carries hs hm
    rw [of_decide_eq_true hreg]
    exact Forest.self_mem_path _

theorem smallSource_loads : smallSource.LoadsAs loadActorScene := by
  intro n hn
  rw [of_decide_eq_true hn]
  rfl

theorem smallSource_sendable : smallSource.Sendable emptyDictionaryCodec := by
  have howner : (0 : Int) ≤ 1 ∧ (1 : Int) < 2 ^ 32 := by decide
  have huid : (-2 ^ 63 : Int) ≤ 7 ∧ (7 : Int) < 2 ^ 63 := by decide
  refine ⟨fun _ => howner, fun _ => huid, fun n scene hscene => ?_, fun n hn e he => ?_⟩
  · cases n with
    | scene =>
      cases hscene
      exact Nat.lt_two_pow_self.trans (by decide)
    | root => cases hscene
    | actor => cases hscene
  · rw [of_decide_eq_true hn] at he
    cases he
    exact fun _ _ => ⟨rfl, rfl⟩

theorem emptyClient_starts : UpdateSource.Starts (smallTree (S := Unit) fun _ => none)
    emptyClient := by
  have hid (i : Int) (x : emptyClient.Node) :
      emptyClient.repository.idToObject.get? i = some x ↔ i = 0 := by
    have hget : emptyClient.repository.idToObject.get? i = if i = 0 then some () else none :=
      Dict.get?_set _
    rw [hget]
    split
    · next he => exact iff_of_true rfl he
    · next hne => exact iff_of_false (fun he => by cases he) hne
  refine ⟨fun x i => ?_, fun i x _ => ⟨rfl, rfl⟩, rfl, fun q hq => ?_, ⟨rfl, rfl⟩,
    fun n p hn hp => ?_, fun n hn => ?_, fun n p x y hn hp hx hy => ?_, fun i x hx => ?_⟩
  · refine Iff.trans ?_ (hid i x).symm
    have hget : emptyClient.repository.objectToId.get? x = some 0 := rfl
    rw [hget, Option.some.injEq, eq_comm]
  · cases hq
  · cases n <;> cases hp <;> cases hn
  · cases n with
    | root => exact ⟨(), rfl⟩
    | scene => cases hn
    | actor => cases hn
  · cases n with
    | root => cases hp
    | scene => cases hn
    | actor => cases hn
  · exact ⟨.root, (hid i x).1 hx, .inl rfl⟩

/-- The scene is shown, hidden and, in the next frame, shown again. -/
theorem clients_replicate_scene : Runs.Always
    (smallSource.replicaStep loadActorScene emptyDictionaryCodec)
    (fun s => ∃ c, s.client = some c ∧ smallSource.Replicates s.visible c)
    ⟨[], some emptyClient, []⟩
    [.visibleNodes [.scene], .visibleNodes [], .frameEnd, .visibleNodes [.scene]] := by
  have hscene : smallSource.Visible [.scene] := by
    refine ⟨List.nodup_singleton _, fun n hn => ?_, fun n _ a _ ha => ?_⟩
    · rw [List.mem_singleton.1 hn]
      rfl
    · rw [of_decide_eq_true ha]
      exact List.mem_singleton_self _
  have hnone : smallSource.Visible [] := by
    refine ⟨List.nodup_nil, ?_, ?_⟩
    · intro n hn
      cases hn
    · intro n hn
      cases hn
  apply UpdateSource.clients_replicate smallSource_replicable smallSource_loads
    smallSource_sendable emptyClient_starts
  refine ⟨⟨hscene, ?_⟩, ⟨hnone, ?_⟩, trivial, ⟨hscene, ?_⟩, trivial⟩
  · intro n _ _ hn
    cases hn
  · intro n hn
    cases hn
  · intro n _ _ hn
    cases hn

end Godaemon
