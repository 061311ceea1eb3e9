import Godaemon.Lib.Runs
import Godaemon.Api.Repository

namespace Godaemon
set_option autoImplicit true

/-- A client's repository, its tree, and the nodes that it frees when the frame ends. Its nodes
are numbered in the order in which they are created, all directly below the root. -/
structure ClientNodes where
  repository : Repository Nat
  created : Nat
  tree : List Nat
  pending : List Nat
  freed : List Nat

inductive ClientEvent where
  | updateVisibility (removed added : List Nat)
  | frameEnd

namespace ClientNodes

def start : ClientNodes := ⟨.new, 0, [], [], []⟩

def isInstanceValid (s : ClientNodes) (node : Nat) : Bool := node ∉ s.freed

/-- Take the node of an id out of the tree, and queue it for the end of the frame. -/
def removeNode (s : ClientNodes) (id : Nat) : ClientNodes :=
  let (object, repository) := s.repository.getObject s.isInstanceValid id
  let s := { s with repository := repository }
  match object with
  | none => s
  | some node =>
    if node ∉ s.tree then s
    else { s with
      tree := s.tree.filter (fun n => n ≠ node)
      pending := s.pending ++ [node] }

/-- Create the node of an id. It enters the tree once all have been created. -/
def buildNode (build : Dict Nat Nat × ClientNodes) (id : Nat) : Dict Nat Nat × ClientNodes :=
  let (lodes, s) := build
  (lodes.set id s.created,
    { s with
      repository := (s.repository.addObject s.created id).2
      created := s.created + 1 })

def addLodes (build : Dict Nat Nat × ClientNodes) : ClientNodes :=
  { build.2 with tree := build.2.tree ++ build.1.values }

def updateVisibility (s : ClientNodes) (removed added : List Nat) : ClientNodes :=
  addLodes (added.foldl buildNode (.empty, removed.foldl removeNode s))

/-- A node that is freed leaves the repository, whoever its id belongs to by now. -/
def freeNode (s : ClientNodes) (node : Nat) : ClientNodes :=
  { s with
    repository :=
      if s.repository.getId node ≠ -1 then s.repository.removeObject node else s.repository
    freed := s.freed ++ [node] }

def frameEnd (s : ClientNodes) : ClientNodes := { s.pending.foldl freeNode s with pending := [] }

end ClientNodes

/-- A client, and for each id the node that the latest message about it created, if any. -/
structure ClientHistory where
  client : ClientNodes
  latest : Dict Nat (Option Nat)

namespace ClientHistory

def start : ClientHistory := ⟨.start, .empty⟩

def recordRemoved (removed : List Nat) (latest : Dict Nat (Option Nat)) : Dict Nat (Option Nat) :=
  removed.foldl (fun latest id => latest.set id none) latest

/-- The nodes of a message are created in order, from a number on. -/
def recordAdded : Nat → List Nat → Dict Nat (Option Nat) → Dict Nat (Option Nat)
  | _, [], latest => latest
  | node, id :: added, latest => recordAdded (node + 1) added (latest.set id (some node))

def step (s : ClientHistory) : ClientEvent → ClientHistory
  | .updateVisibility removed added =>
    ⟨s.client.updateVisibility removed added,
      recordAdded s.client.created added (recordRemoved removed s.latest)⟩
  | .frameEnd => ⟨s.client.frameEnd, s.latest⟩

/-- While nothing waits to be freed, every id resolves as its latest message says. -/
def Resolves (s : ClientHistory) : Prop :=
  s.client.pending = [] → ∀ id node, s.latest.get? id = some node →
    (s.client.repository.getObject s.client.isInstanceValid id).1 = node

/-- When a frame ends, the latest message about the id of a node that waits to be freed is the
one that removed it. -/
def SafeEvent (s : ClientHistory) : ClientEvent → Prop
  | .updateVisibility _ _ => True
  | .frameEnd => ∀ node ∈ s.client.pending, ∀ id : Nat,
    s.client.repository.getId node = id → ∀ other, s.latest.get? id ≠ some (some other)

/-- What holds of a client in every state that a safe run reaches, also while the nodes `lodes` of
a message wait to enter the tree. -/
structure Tracks (lodes : Dict Nat Nat) (s : ClientNodes) (latest : Dict Nat (Option Nat)) :
    Prop where
  added : ∀ id node, latest.get? id = some (some node) →
    s.repository.idToObject.get? id = some node
  removed : ∀ id : Nat, latest.get? id = some none → ∀ node,
    s.repository.idToObject.get? id = some node → node ∈ s.pending
  inverse : ∀ (id : Nat) node, s.repository.idToObject.get? id = some node →
    s.repository.objectToId.get? node = some (id : Int)
  mapped : ∀ (id : Nat) node, s.repository.idToObject.get? id = some node → node ∉ s.freed ∧
    node < s.created ∧ (lodes.get? id = some node ∨ node ∈ s.tree ∨ node ∈ s.pending)
  old : ∀ node, node ∈ s.pending ∨ node ∈ s.freed → node < s.created

variable {lodes : Dict Nat Nat} {s : ClientNodes} {latest : Dict Nat (Option Nat)}

theorem Tracks.getObject (h : Tracks lodes s latest) (id : Nat) :
    s.repository.getObject s.isInstanceValid id =
      (s.repository.idToObject.get? id, s.repository) := by
  apply Repository.getObject_of_valid
  intro node hn
  have hfree := (h.mapped id node hn).1
  simpa [ClientNodes.isInstanceValid] using hfree

/-- From `s` to `s'` a node leaves the tree, unless it is out already, and waits to be freed. -/
structure Queued (s s' : ClientNodes) (node : Nat) : Prop where
  repository : s'.repository = s.repository
  created : s'.created = s.created
  freed : s'.freed = s.freed
  pending : ∀ n, n ∈ s'.pending ↔ n = node ∨ n ∈ s.pending
  tree : ∀ n ∈ s.tree, n ∈ s'.tree ∨ n = node

theorem Tracks.forget {id : Nat} (h : Tracks lodes s latest)
    (hg : s.repository.idToObject.get? id = none) :
    Tracks lodes s (latest.set id none) := by
  apply Tracks.mk
  · intro i node hn
    rw [Dict.get?_set] at hn
    split at hn
    · cases hn
    · exact h.added i node hn
  · intro i hi node hn
    rw [Dict.get?_set] at hi
    split at hi
    · next he =>
      rw [he, hg] at hn
      cases hn
    · exact h.removed i hi node hn
  · exact h.inverse
  · exact h.mapped
  · exact h.old

theorem Tracks.queue {id : Nat} (h : Tracks lodes s latest)
    (hg : s.repository.idToObject.get? id = some node) (hq : Queued s s' node) :
    Tracks lodes s' (latest.set id none) := by
  apply Tracks.mk
  · intro i n hn
    rw [hq.repository]
    rw [Dict.get?_set] at hn
    split at hn
    · cases hn
    · exact h.added i n hn
  · intro i hi n hn
    rw [hq.repository] at hn
    rw [hq.pending]
    rw [Dict.get?_set] at hi
    split at hi
    · next he =>
      rw [he, hg] at hn
      exact .inl (Option.some.inj hn).symm
    · exact .inr (h.removed i hi n hn)
  · rw [hq.repository]
    exact h.inverse
  · intro i n hn
    rw [hq.repository] at hn
    rw [hq.freed, hq.created, hq.pending]
    obtain ⟨h1, h2, h3⟩ := h.mapped i n hn
    apply And.intro h1
    apply And.intro h2
    rcases h3 with h3 | h3 | h3
    · exact .inl h3
    · exact .inr ((hq.tree n h3).imp_right .inl)
    · exact .inr (.inr (.inr h3))
  · intro n hn
    rw [hq.freed, hq.pending] at hn
    rw [hq.created]
    rcases hn with (he | hn) | hn
    · rw [he]
      exact (h.mapped id node hg).2.1
    · exact h.old n (.inl hn)
    · exact h.old n (.inr hn)

theorem Tracks.queued {id : Nat} (h : Tracks .empty s latest)
    (hg : s.repository.idToObject.get? id = some node) :
    Queued s (s.removeNode id) node := by
  rw [ClientNodes.removeNode, h.getObject, hg]
  simp only
  split
  · next ht =>
    have hp : node ∈ s.pending := by
      rcases (h.mapped id node hg).2.2 with hlode | htree | hp
      · cases hlode
      · exact absurd htree ht
      · exact hp
    apply Queued.mk
    · rfl
    · rfl
    · rfl
    · intro n
      apply Iff.intro .inr
      intro hn
      rcases hn with he | hn
      · rw [he]
        exact hp
      · exact hn
    · intro n hn
      exact .inl hn
  · apply Queued.mk
    · rfl
    · rfl
    · rfl
    · intro n
      rw [List.mem_append, List.mem_singleton, or_comm]
    · intro n hn
      rw [List.mem_filter, decide_eq_true_eq]
      by_cases he : n = node
      · exact .inr he
      · exact .inl ⟨hn, he⟩

theorem Tracks.removeNode (h : Tracks .empty s latest) (id : Nat) :
    Tracks .empty (s.removeNode id) (latest.set id none) := by
  cases hg : s.repository.idToObject.get? (id : Int) with
  | none =>
    rw [ClientNodes.removeNode, h.getObject, hg]
    exact h.forget hg
  | some node => exact h.queue hg (h.queued hg)

theorem Tracks.buildNode (h : Tracks lodes s latest) (id : Nat) :
    Tracks (ClientNodes.buildNode (lodes, s) id).1 (ClientNodes.buildNode (lodes, s) id).2
      (latest.set id (some s.created)) := by
  have hne : (id : Int) ≠ -1 := by omega
  have hmap (i : Nat) : ((s.repository.addObject s.created id).2.idToObject.get? i) =
      if i = id then some s.created else s.repository.idToObject.get? i := by
    simp only [Repository.addObject, if_neg hne, Dict.get?_set, Nat.cast_inj]
  have hid (n : Nat) : ((s.repository.addObject s.created id).2.objectToId.get? n) =
      if n = s.created then some (id : Int) else s.repository.objectToId.get? n := by
    simp only [Repository.addObject, if_neg hne, Dict.get?_set]
  simp only [ClientNodes.buildNode]
  apply Tracks.mk
  · intro i n hn
    rw [hmap]
    rw [Dict.get?_set] at hn
    split at hn
    · next he =>
      rw [if_pos he]
      exact Option.some.inj hn
    · next he =>
      rw [if_neg he]
      exact h.added i n hn
  · intro i hi n hn
    rw [hmap] at hn
    rw [Dict.get?_set] at hi
    split at hi
    · cases hi
    · next he =>
      rw [if_neg he] at hn
      exact h.removed i hi n hn
  · intro i n hn
    rw [hmap] at hn
    rw [hid]
    split at hn
    · next he => rw [if_pos (Option.some.inj hn).symm, he]
    · have hlt := (h.mapped i n hn).2.1
      rw [if_neg (Nat.ne_of_lt hlt)]
      exact h.inverse i n hn
  · intro i n hn
    rw [hmap] at hn
    simp only [Dict.get?_set]
    split at hn
    · next he =>
      cases hn
      have hfree : s.created ∉ s.freed := fun hf => Nat.lt_irrefl _ (h.old _ (.inr hf))
      exact ⟨hfree, Nat.lt_succ_self _, .inl (if_pos he)⟩
    · next he =>
      obtain ⟨h1, h2, h3⟩ := h.mapped i n hn
      refine ⟨h1, Nat.lt_succ_of_lt h2, ?_⟩
      rw [if_neg he]
      exact h3
  · intro n hn
    exact Nat.lt_succ_of_lt (h.old n hn)

theorem Tracks.addLodes (h : Tracks lodes s latest) :
    Tracks .empty (ClientNodes.addLodes (lodes, s)) latest := by
  apply Tracks.mk
  · exact h.added
  · exact h.removed
  · exact h.inverse
  · intro id node hn
    obtain ⟨h1, h2, h3⟩ := h.mapped id node hn
    refine ⟨h1, h2, .inr ?_⟩
    simp only [ClientNodes.addLodes, List.mem_append]
    rcases h3 with h3 | h3 | h3
    · exact .inl (.inr (Dict.mem_values_of_get? _ h3))
    · exact .inl (.inl h3)
    · exact .inr h3
  · exact h.old

theorem removeNode_created (s : ClientNodes) (id : Nat) :
    (s.removeNode id).created = s.created := by
  simp only [ClientNodes.removeNode]
  split
  · rfl
  · split <;> rfl

theorem Tracks.foldl_removeNode (h : Tracks .empty s latest) (removed : List Nat) :
    Tracks .empty (removed.foldl ClientNodes.removeNode s) (recordRemoved removed latest) ∧
      (removed.foldl ClientNodes.removeNode s).created = s.created := by
  induction removed generalizing s latest with
  | nil => exact ⟨h, rfl⟩
  | cons id removed ih =>
    obtain ⟨h1, h2⟩ := ih (h.removeNode id)
    exact ⟨h1, h2.trans (removeNode_created s id)⟩

theorem Tracks.foldl_buildNode (h : Tracks lodes s latest) (added : List Nat) :
    Tracks (added.foldl ClientNodes.buildNode (lodes, s)).1
      (added.foldl ClientNodes.buildNode (lodes, s)).2 (recordAdded s.created added latest) := by
  induction added generalizing lodes s latest with
  | nil => exact h
  | cons id added ih => exact ih (h.buildNode id)

theorem Tracks.updateVisibility (h : Tracks .empty s latest) (removed added : List Nat) :
    Tracks .empty (s.updateVisibility removed added)
      (recordAdded s.created added (recordRemoved removed latest)) := by
  obtain ⟨h1, h2⟩ := h.foldl_removeNode removed
  have h3 := h1.foldl_buildNode added
  rw [h2] at h3
  exact h3.addLodes

theorem getId_eq_natCast (r : Repository Nat) (node id : Nat) :
    r.getId node = id ↔ r.objectToId.get? node = some (id : Int) :=
  Repository.getId_eq_iff (by omega)

theorem freeNode_idToObject (s : ClientNodes) (node id : Nat) :
    (s.freeNode node).repository.idToObject.get? id =
      if s.repository.objectToId.get? node = some (id : Int) then none
      else s.repository.idToObject.get? id := by
  by_cases hskip : s.repository.getId node = -1
  · have hno : s.repository.objectToId.get? node ≠ some (id : Int) := by
      intro he
      have hid := (getId_eq_natCast _ _ _).2 he
      omega
    simp only [ClientNodes.freeNode, hskip, ne_eq, not_true_eq_false, ↓reduceIte, if_neg hno]
  · simp only [ClientNodes.freeNode, ne_eq, hskip, not_false_eq_true, ↓reduceIte,
      Repository.removeObject]
    cases s.repository.objectToId.get? node with
    | none => simp
    | some i => simp only [Dict.get?_erase, Option.some.injEq, eq_comm]

theorem freeNode_objectToId_ne (s : ClientNodes) {n node : Nat} (hn : n ≠ node) :
    (s.freeNode node).repository.objectToId.get? n = s.repository.objectToId.get? n := by
  simp only [ClientNodes.freeNode]
  split
  · simp only [Repository.removeObject, Dict.get?_erase, if_neg hn]
  · rfl

theorem freeNode_objectToId_self (s : ClientNodes) (node id : Nat) :
    (s.freeNode node).repository.objectToId.get? node ≠ some (id : Int) := by
  by_cases hskip : s.repository.getId node = -1
  · intro he
    simp only [ClientNodes.freeNode, hskip, ne_eq, not_true_eq_false, ↓reduceIte] at he
    have hid := (getId_eq_natCast _ _ _).2 he
    omega
  · simp only [ClientNodes.freeNode, ne_eq, hskip, not_false_eq_true, ↓reduceIte,
      Repository.removeObject, Dict.get?_erase, reduceCtorEq]

/-- The node of an id is among some nodes if it is the first, or is still found among the others
once the first is freed. -/
theorem exists_mem_cons_iff (s : ClientNodes) (node : Nat) (nodes : List Nat) (id : Nat) :
    (∃ n ∈ node :: nodes, s.repository.objectToId.get? n = some (id : Int)) ↔
      s.repository.objectToId.get? node = some (id : Int) ∨
        ∃ n ∈ nodes, (s.freeNode node).repository.objectToId.get? n = some (id : Int) := by
  apply Iff.intro
  · intro h
    obtain ⟨n, hn, he⟩ := h
    by_cases hnn : n = node
    · exact .inl (hnn ▸ he)
    · have hmem := (List.mem_cons.1 hn).resolve_left hnn
      exact .inr ⟨n, hmem, (freeNode_objectToId_ne s hnn).trans he⟩
  · intro h
    rcases h with he | ⟨n, hn, he⟩
    · exact ⟨node, List.mem_cons_self, he⟩
    · by_cases hnn : n = node
      · subst hnn
        exact absurd he (freeNode_objectToId_self s n id)
      · exact ⟨n, List.mem_cons_of_mem _ hn, (freeNode_objectToId_ne s hnn).symm.trans he⟩

theorem foldl_freeNode (nodes : List Nat) (s : ClientNodes) :
    (∀ id : Nat, (nodes.foldl ClientNodes.freeNode s).repository.idToObject.get? id =
      if ∃ node ∈ nodes, s.repository.objectToId.get? node = some (id : Int) then none
      else s.repository.idToObject.get? id) ∧
    (∀ node, node ∉ nodes → (nodes.foldl ClientNodes.freeNode s).repository.objectToId.get? node =
      s.repository.objectToId.get? node) ∧
    (nodes.foldl ClientNodes.freeNode s).freed = s.freed ++ nodes ∧
    (nodes.foldl ClientNodes.freeNode s).created = s.created ∧
    (nodes.foldl ClientNodes.freeNode s).tree = s.tree := by
  induction nodes generalizing s with
  | nil => simp
  | cons node nodes ih =>
    obtain ⟨h1, h2, h3, h4, h5⟩ := ih (s.freeNode node)
    simp only [List.foldl_cons]
    apply And.intro
    · intro id
      rw [h1, freeNode_idToObject]
      simp only [exists_mem_cons_iff s node nodes id]
      by_cases hnode : s.repository.objectToId.get? node = some (id : Int)
      · simp [hnode]
      · simp [hnode]
    apply And.intro
    · intro n hn
      rw [List.mem_cons, not_or] at hn
      rw [h2 n hn.2, freeNode_objectToId_ne s hn.1]
    apply And.intro
    · rw [h3, ClientNodes.freeNode, List.append_assoc]
      rfl
    · exact ⟨h4, h5⟩

theorem frameEnd_get? (s : ClientNodes) (id : Nat) :
    s.frameEnd.repository.idToObject.get? id =
      if ∃ node ∈ s.pending, s.repository.objectToId.get? node = some (id : Int) then none
      else s.repository.idToObject.get? id :=
  (foldl_freeNode s.pending s).1 id

theorem Tracks.frameEnd (h : Tracks .empty s latest)
    (hsafe : SafeEvent ⟨s, latest⟩ .frameEnd) : Tracks .empty s.frameEnd latest := by
  obtain ⟨_, hobjects, hfreed, hcreated, htree⟩ := foldl_freeNode s.pending s
  have hkept {id node : Nat} (hn : s.frameEnd.repository.idToObject.get? id = some node) :
      s.repository.idToObject.get? id = some node ∧ node ∉ s.pending := by
    rw [frameEnd_get?] at hn
    split at hn
    · cases hn
    · next hno =>
      exact ⟨hn, fun hp => hno ⟨node, hp, h.inverse id node hn⟩⟩
  apply Tracks.mk
  · intro id node hn
    have hmap := h.added id node hn
    rw [frameEnd_get?, if_neg]
    · exact hmap
    · rintro ⟨n, hp, hid⟩
      exact hsafe n hp id ((getId_eq_natCast _ _ _).2 hid) node hn
  · intro id hid node hn
    obtain ⟨hmap, hp⟩ := hkept hn
    exact absurd (h.removed id hid node hmap) hp
  · intro id node hn
    obtain ⟨hmap, hp⟩ := hkept hn
    exact (hobjects node hp).trans (h.inverse id node hmap)
  · intro id node hn
    obtain ⟨hmap, hp⟩ := hkept hn
    obtain ⟨h1, h2, h3⟩ := h.mapped id node hmap
    refine ⟨?_, ?_, .inr (.inl ?_)⟩
    · change node ∉ (s.pending.foldl ClientNodes.freeNode s).freed
      rw [hfreed, List.mem_append, not_or]
      exact ⟨h1, hp⟩
    · exact hcreated.symm ▸ h2
    · change node ∈ (s.pending.foldl ClientNodes.freeNode s).tree
      rw [htree]
      rcases h3 with h3 | h3 | h3
      · cases h3
      · exact h3
      · exact absurd h3 hp
  · intro node hn
    change node < (s.pending.foldl ClientNodes.freeNode s).created
    rw [hcreated]
    rcases hn with hn | hn
    · cases hn
    · change node ∈ (s.pending.foldl ClientNodes.freeNode s).freed at hn
      rw [hfreed, List.mem_append] at hn
      exact h.old node hn.symm

theorem Tracks.resolves (h : Tracks .empty s latest) : Resolves ⟨s, latest⟩ := by
  intro hp id node hn
  rw [h.getObject]
  cases node with
  | some node => exact h.added id node hn
  | none =>
    cases hg : s.repository.idToObject.get? (id : Int) with
    | none => rfl
    | some node =>
      have hm := h.removed id hn node hg
      rw [show s.pending = [] from hp] at hm
      cases hm

/-- A frame that ends safely leaves every id as its latest message says, any other does not. -/
theorem frameEnd_resolves_iff (h : Tracks .empty s latest) :
    Resolves ⟨s.frameEnd, latest⟩ ↔ SafeEvent ⟨s, latest⟩ .frameEnd := by
  constructor
  · intro hr node hp id hid other hl
    have hgone : s.frameEnd.repository.idToObject.get? id = none := by
      rw [frameEnd_get?, if_pos ⟨node, hp, (getId_eq_natCast _ _ _).1 hid⟩]
    have ho := hr rfl id (some other) hl
    rw [Repository.getObject_of_valid (fun n hn => by rw [hgone] at hn; cases hn), hgone] at ho
    cases ho
  · exact fun hsafe => (h.frameEnd hsafe).resolves

theorem Tracks.start : Tracks .empty ClientHistory.start.client ClientHistory.start.latest := by
  apply Tracks.mk
  · intro id node h
    cases h
  · intro id h
    cases h
  · intro id node h
    cases h
  · intro id node h
    cases h
  · intro node h
    rcases h with h | h <;> cases h

/-- The runs along which the ids resolve as they should, whenever nothing waits to be freed, are
those whose frames end safely. -/
theorem ids_resolve_iff (events : List ClientEvent) :
    Runs.Always step Resolves start events ↔ Runs.Guarded step SafeEvent start events := by
  apply Runs.always_iff_guarded (I := fun s => Tracks .empty s.client s.latest)
  · intro s event h _ hsafe
    cases event with
    | updateVisibility removed added => exact h.updateVisibility removed added
    | frameEnd => exact h.frameEnd hsafe
  · intro s event h _
    cases event with
    | updateVisibility removed added =>
      exact iff_of_true (h.updateVisibility removed added).resolves trivial
    | frameEnd => exact frameEnd_resolves_iff h
  · exact .start
  · exact Tracks.start.resolves

/-- A node is shown, and then hidden and shown again within one frame: its id is lost. -/
theorem ids_lost :
    ¬ Runs.Always step Resolves start
      [.updateVisibility [] [7], .frameEnd, .updateVisibility [7] [7], .frameEnd] := by
  intro h
  have hid := h.last (by decide) 7 (some 1) (by decide)
  revert hid
  decide

end ClientHistory

end Godaemon
