import Godaemon.Replication.Harvest

namespace Godaemon
set_option autoImplicit true

open ReplicationData

/-- A scene instance in the server's tree: its root, and for every node path of the scene states
the node now found there. -/
structure SceneInstance [DecidableEq N] (T : ServerTree S N) where
  scene : N
  scene_ne_root : scene ≠ T.root
  subnodes : List (Option N)
  below : ∀ n, some n ∈ subnodes → scene ∈ T.path n

namespace SceneInstance

variable {S N : Type} [DecidableEq N] {T : ServerTree S N} (X : SceneInstance T)
  (d : ReplicationData S) (owner : N → Option Int) (controlled : N → Bool)
  (get : N → String → Variant)

/-- Does the scene carry this subnode along, or is its visibility controlled on its own? -/
def carries (subnode : N) : Bool := !controlled subnode || X.scene = subnode

/-- The property values of one node of the tree, as harvested for a peer. -/
def nodePropertyValues (T : ServerTree S N) (peer : Int) (n : N) : List Variant :=
  d.getObjectPropertyValues (T.getNodeOwner owner n) (T.script n) (get n) peer

/-- The server's pass over the scene: the ids in order, 0 for a node that is not sent, and the
values of the nodes that have any. -/
def sceneStep (peer : Int) (acc : List Int × Dict Int (List Variant)) :
    Option N → List Int × Dict Int (List Variant)
  | none => (acc.1 ++ [0], acc.2)
  | some subnode =>
    if X.carries controlled subnode then
      let subnodeId := T.repository.getId subnode
      if subnodeId ≠ -1 then
        let values := nodePropertyValues d owner get T peer subnode
        (acc.1 ++ [subnodeId], if values.isEmpty then acc.2 else acc.2.set subnodeId values)
      else (acc.1 ++ [0], acc.2)
    else (acc.1 ++ [0], acc.2)

def sceneData (peer : Int) : List Int × Dict Int (List Variant) :=
  X.subnodes.foldl (X.sceneStep d owner controlled get peer) ([], .empty)

/-- The owner metadata on the client's fresh copy of a node: only the root of the scene has any,
sent in four bytes. -/
def copyOwner (n : N) : Option Int :=
  if n = X.scene then some (Bytes.residue 4 (T.getNodeOwner owner X.scene)) else none

/-- The client's pass over its copy: what is applied to the copies of which nodes. -/
def applied (peer : Int) : List (N × Applied) :=
  let data := X.sceneData d owner controlled get peer
  (X.subnodes.zip data.1).filterMap fun (subnode, nodeId) =>
    match subnode with
    | none => none
    | some n =>
      if nodeId = 0 then none
      else (data.2.get? nodeId).map fun values =>
        (n, d.applyObjectPropertyValues (getDetachedOwner (X.copyOwner owner n)) (T.script n)
          values peer)

/-- A node that the scene sends to a client. -/
def Sent (n : N) : Prop := some n ∈ X.subnodes ∧ X.carries controlled n = true

/-- The copy of a node takes up its list from the first value to the last, every value goes to
the property it belongs to, and no property that the peer may receive is left out. -/
structure Agrees (peer : Int) (n : N) : Prop where
  consumed : ∀ a, (n, a) ∈ X.applied d owner controlled get peer →
    a.inBounds = true ∧ a.trueIdx + 1 = (nodePropertyValues d owner get T peer n).length
  own : ∀ a, (n, a) ∈ X.applied d owner controlled get peer → ∀ w ∈ a.sets, w.2 = get n w.1
  received : ∀ c ∈ d.propertyConfigs (T.script n), c.canTheyRecv (T.getNodeOwner owner n) peer →
    ∃ a, (n, a) ∈ X.applied d owner controlled get peer ∧ (c.name, get n c.name) ∈ a.sets

variable {X d owner controlled get}

theorem sent_id_ne_zero (h : X.Sent controlled n) : T.repository.getId n ≠ 0 := by
  rw [Ne, T.getId_eq_zero_iff]
  rintro rfl
  have hb := X.below _ h.1
  rw [Forest.path_of_root T.parent_root, List.mem_singleton] at hb
  exact X.scene_ne_root hb

theorem sceneStep_ids (peer : Int) (acc : List Int × Dict Int (List Variant)) (o : Option N) :
    (X.sceneStep d owner controlled get peer acc o).1 = acc.1 ++ [match o with
      | some n => if X.carries controlled n then T.repository.getId n else 0
      | none => 0] := by
  cases o with
  | none => rfl
  | some m =>
    have hid := T.getId_ne_neg_one m
    rw [sceneStep]
    cases hc : X.carries controlled m with
    | false => simp [hc]
    | true => simp [hc, hid]

theorem sceneStep_other (peer : Int) (acc : List Int × Dict Int (List Variant)) {n : N}
    {o : Option N} (h : ¬ (o = some n ∧ X.carries controlled n = true)) :
    (X.sceneStep d owner controlled get peer acc o).2.get? (T.repository.getId n) =
      acc.2.get? (T.repository.getId n) := by
  cases o with
  | none => rfl
  | some m =>
    rw [sceneStep]
    cases hc : X.carries controlled m with
    | false => simp
    | true =>
      have hnm : n ≠ m := by
        intro he
        subst he
        exact h ⟨rfl, hc⟩
      have hne : T.repository.getId n ≠ T.repository.getId m := fun he => hnm (T.getId_inj he)
      simp only [↓reduceIte, ne_eq, T.getId_ne_neg_one m, not_false_eq_true]
      split
      · rfl
      · exact Dict.get?_set_ne _ hne

theorem sceneStep_self (peer : Int) (acc : List Int × Dict Int (List Variant)) {n : N}
    (hc : X.carries controlled n = true) :
    (X.sceneStep d owner controlled get peer acc (some n)).2.get? (T.repository.getId n) =
      if nodePropertyValues d owner get T peer n = [] then acc.2.get? (T.repository.getId n)
      else some (nodePropertyValues d owner get T peer n) := by
  rw [sceneStep]
  simp only [hc, ↓reduceIte, ne_eq, T.getId_ne_neg_one n, not_false_eq_true, List.isEmpty_iff]
  split
  · rfl
  · exact Dict.get?_set_self _

theorem sceneStep_foldl (X : SceneInstance T) (d : ReplicationData S) (owner : N → Option Int)
    (controlled : N → Bool) (get : N → String → Variant) (peer : Int) (subnodes : List (Option N)) :
    (subnodes.foldl (X.sceneStep d owner controlled get peer) ([], .empty)).1 =
        subnodes.map (fun o => match o with
          | some n => if X.carries controlled n then T.repository.getId n else 0
          | none => 0) ∧
      ∀ n vs, (subnodes.foldl (X.sceneStep d owner controlled get peer) ([], .empty)).2.get?
          (T.repository.getId n) = some vs ↔
        some n ∈ subnodes ∧ X.carries controlled n = true ∧
          vs = nodePropertyValues d owner get T peer n ∧ vs ≠ [] := by
  induction subnodes using List.reverseRecOn with
  | nil => exact ⟨rfl, by simp⟩
  | append_singleton subnodes o ih =>
    rw [List.foldl_append, List.foldl_cons, List.foldl_nil, List.map_append]
    apply And.intro
    · rw [sceneStep_ids, ih.1]
      rfl
    · intro n vs
      rw [List.mem_append, List.mem_singleton]
      by_cases hself : o = some n ∧ X.carries controlled n = true
      · obtain ⟨rfl, hc⟩ := hself
        rw [sceneStep_self peer _ hc]
        by_cases hv : nodePropertyValues d owner get T peer n = []
        · rw [if_pos hv, ih.2]
          apply iff_of_false
          · intro h
            obtain ⟨_, _, he, hne⟩ := h
            exact hne (he.trans hv)
          · intro h
            obtain ⟨_, _, he, hne⟩ := h
            exact hne (he.trans hv)
        · rw [if_neg hv, Option.some.injEq]
          apply Iff.intro
          · intro he
            exact ⟨.inr rfl, hc, he.symm, fun h0 => hv (he.trans h0)⟩
          · intro h
            obtain ⟨_, _, he, _⟩ := h
            exact he.symm
      · rw [sceneStep_other peer _ hself, ih.2]
        apply Iff.intro
        · intro h
          obtain ⟨hmem, hrest⟩ := h
          exact ⟨.inl hmem, hrest⟩
        · intro h
          obtain ⟨hmem, hc, hrest⟩ := h
          exact ⟨hmem.resolve_right (fun he => hself ⟨he.symm, hc⟩), hc, hrest⟩

theorem mem_zip_map {f : α → β} (l : List α) : (a, b) ∈ l.zip (l.map f) ↔ a ∈ l ∧ b = f a := by
  induction l with
  | nil => simp
  | cons x l ih =>
    simp only [List.map_cons, List.zip_cons_cons, List.mem_cons, Prod.mk.injEq, ih]
    constructor
    · rintro (⟨rfl, rfl⟩ | ⟨h, rfl⟩)
      · exact ⟨.inl rfl, rfl⟩
      · exact ⟨.inr h, rfl⟩
    · rintro ⟨rfl | h, rfl⟩
      · exact .inl ⟨rfl, rfl⟩
      · exact .inr ⟨h, rfl⟩

theorem mem_applied (get : N → String → Variant) (peer : Int) (n : N) (a : Applied) :
    (n, a) ∈ X.applied d owner controlled get peer ↔
      X.Sent controlled n ∧ nodePropertyValues d owner get T peer n ≠ [] ∧
        a = d.applyObjectPropertyValues (getDetachedOwner (X.copyOwner owner n)) (T.script n)
          (nodePropertyValues d owner get T peer n) peer := by
  obtain ⟨hids, hvals⟩ := sceneStep_foldl X d owner controlled get peer X.subnodes
  simp only [applied, sceneData, hids, List.mem_filterMap, Prod.exists]
  constructor
  · rintro ⟨o, i, hm, ha⟩
    obtain ⟨ho, rfl⟩ := (mem_zip_map _).1 hm
    cases o with
    | none => cases ha
    | some m =>
      cases hc : X.carries controlled m with
      | false => simp [hc] at ha
      | true =>
        simp only [hc, ↓reduceIte] at ha
        rw [if_neg (sent_id_ne_zero ⟨ho, hc⟩), Option.map_eq_some_iff] at ha
        obtain ⟨vs, hvs, he⟩ := ha
        cases he
        obtain ⟨_, _, rfl, hne⟩ := (hvals _ _).1 hvs
        exact ⟨⟨ho, hc⟩, hne, rfl⟩
  · rintro ⟨hs, hne, rfl⟩
    refine ⟨some n, T.repository.getId n, (mem_zip_map _).2 ⟨hs.1, by simp [hs.2]⟩, ?_⟩
    simp only
    rw [if_neg (sent_id_ne_zero hs), (hvals n _).2 ⟨hs.1, hs.2, rfl, hne⟩]
    rfl

/-- The class of a peer at a node in the server's tree, and at the client's copy of it. -/
def serverFilter (T : ServerTree S N) (owner : N → Option Int) (p : ClientPeer) (n : N) : Filter :=
  ReplicationConfigBase.filterOf (T.getNodeOwner owner n) p

def copyFilter (X : SceneInstance T) (owner : N → Option Int) (p : ClientPeer) (n : N) : Filter :=
  ReplicationConfigBase.filterOf (getDetachedOwner (X.copyOwner owner n)) p

/-- The server gives a node's copy nothing, or the same properties that the copy takes. -/
def SameProperties (X : SceneInstance T) (d : ReplicationData S) (owner : N → Option Int)
    (p : ClientPeer) (n : N) : Prop :=
  d.admitted (T.script n) (serverFilter T owner p n) = [] ∨
    d.admitted (T.script n) (serverFilter T owner p n) =
      d.admitted (T.script n) (copyFilter X owner p n)

theorem nodePropertyValues_client (T : ServerTree S N) (d : ReplicationData S)
    (owner : N → Option Int) (get : N → String → Variant) (p : ClientPeer) (n : N) :
    nodePropertyValues d owner get T p n =
      (d.admitted (T.script n) (serverFilter T owner p n)).map (get n) :=
  getObjectPropertyValues_client p _ _ _

theorem agrees_of_same {p : ClientPeer} (hs : X.Sent controlled n)
    (h : X.SameProperties d owner p n) :
    X.Agrees d owner controlled get p n := by
  have hv := nodePropertyValues_client T d owner get p n
  rcases h with h0 | heq
  · rw [h0, List.map_nil] at hv
    refine ⟨fun a ha => ?_, fun a ha => ?_, fun c hc hr => ?_⟩
    · exact absurd hv ((mem_applied _ _ _ _).1 ha).2.1
    · exact absurd hv ((mem_applied _ _ _ _).1 ha).2.1
    · have hm : c.name ∈ d.admitted (T.script n) (serverFilter T owner p n) :=
        List.mem_map_of_mem (List.mem_filter.2 ⟨hc, hr⟩)
      rw [h0] at hm
      cases hm
  · obtain ⟨hsets, hin, hlast⟩ := applyObjectPropertyValues_spec (d := d)
      (o := getDetachedOwner (X.copyOwner owner n)) p (T.script n)
      (nodePropertyValues d owner get T p n) heq.symm
    have hlen : (nodePropertyValues d owner get T p n).length =
        (d.admitted (T.script n) (serverFilter T owner p n)).length := by
      rw [hv, List.length_map]
    refine ⟨fun a ha => ?_, fun a ha w hw => ?_, fun c hc hr => ?_⟩
    · rw [((mem_applied _ _ _ _).1 ha).2.2, hlen]
      exact ⟨hin.2 (by omega), hlast (by omega)⟩
    · rw [((mem_applied _ _ _ _).1 ha).2.2, hsets, hv] at hw
      exact ((mem_zip_map _).1 hw).2
    · have hm : c.name ∈ d.admitted (T.script n) (serverFilter T owner p n) :=
        List.mem_map_of_mem (List.mem_filter.2 ⟨hc, hr⟩)
      refine ⟨_, (mem_applied _ _ _ _).2 ⟨hs, fun h0 => ?_, rfl⟩, ?_⟩
      · rw [hv, List.map_eq_nil_iff] at h0
        rw [h0] at hm
        cases hm
      · rw [hsets, hv]
        exact (mem_zip_map _).2 ⟨hm, rfl⟩

theorem same_of_agrees {p : ClientPeer} (hs : X.Sent controlled n)
    (h : ∀ get, X.Agrees d owner controlled get p n) : X.SameProperties d owner p n := by
  by_cases h0 : d.admitted (T.script n) (serverFilter T owner p n) = []
  · exact .inl h0
  · refine .inr ?_
    have happlied (get : N → String → Variant) := (mem_applied get p n _).2
        ⟨hs, by rw [nodePropertyValues_client]; simpa using h0, rfl⟩
    have hspec (get : N → String → Variant) := applyObjectPropertyValues_spec (d := d)
      (o := getDetachedOwner (X.copyOwner owner n)) p (T.script n)
      (nodePropertyValues d owner get T p n) rfl
    have hlen : (d.admitted (T.script n) (serverFilter T owner p n)).length =
        (d.admitted (T.script n) (copyFilter X owner p n)).length := by
      obtain ⟨_, hin, hlast⟩ := hspec (fun _ _ => .null)
      obtain ⟨hb, hc⟩ := (h _).consumed _ (happlied (fun _ _ => .null))
      rw [hlast (hin.1 hb), nodePropertyValues_client, List.length_map] at hc
      exact (Int.natCast_inj.1 hc).symm
    refine names_eq_of_zip _ _ hlen (fun f w hw => ?_)
    refine (h (fun _ => f)).own _ (happlied (fun _ => f)) w ?_
    rw [(hspec (fun _ => f)).1, nodePropertyValues_client]
    exact hw

/-- The initial properties of a scene arrive as they are on the server exactly when, at every
node sent, the peer's class on the server and on the copy admit the same properties. -/
theorem scene_properties_agree_iff (X : SceneInstance T) (d : ReplicationData S)
    (owner : N → Option Int) (controlled : N → Bool) (p : ClientPeer) :
    (∀ get n, X.Sent controlled n → X.Agrees d owner controlled get p n) ↔
      ∀ n, X.Sent controlled n → X.SameProperties d owner p n :=
  ⟨fun h n hs => same_of_agrees hs (fun get => h get n hs),
    fun h _ n hs => agrees_of_same hs (h n hs)⟩

/-- One script with a property for the server and the owner, and one for all but the owner. -/
def ownerSplit : ReplicationData Unit where
  scripts := .discrete
  scriptReplicationMap := fun _ => some { propertyConfig :=
    [{ instanceId := 0, name := "hp", recvFilter := 3 },
      { instanceId := 1, name := "mana", recvFilter := 5 }] }

/-- A scene whose root carries the node below it along. -/
def smallScene : SceneInstance (smallTree (fun n => if n = .actor then some () else none)) where
  scene := .scene
  scene_ne_root := by decide
  subnodes := [some .scene, some .actor]
  below n hn := by
    have h : n = .scene ∨ n = .actor := by simpa using hn
    rcases h with rfl | rfl <;> decide

/-- Peer 5 owns the scene: the server sends `hp` of the node, and the copy sets `mana` to it. -/
theorem scene_properties_disagree :
    smallScene.applied ownerSplit (fun n => if n = .scene then some 5 else none) (fun _ => false)
        (fun _ name => if name = "hp" then .int 100 else .int 7) 5 =
      [(.actor, ⟨[("mana", .int 100)], 0, true⟩)] ∧
    ¬ smallScene.Agrees ownerSplit (fun n => if n = .scene then some 5 else none) (fun _ => false)
        (fun _ name => if name = "hp" then .int 100 else .int 7) 5 .actor := by
  have he : smallScene.applied ownerSplit (fun n => if n = .scene then some 5 else none)
      (fun _ => false) (fun _ name => if name = "hp" then .int 100 else .int 7) 5 =
      [(.actor, ⟨[("mana", .int 100)], 0, true⟩)] := by rfl
  refine ⟨he, fun h => ?_⟩
  have hw := h.own ⟨[("mana", .int 100)], 0, true⟩ (by rw [he]; exact List.mem_cons_self)
    ("mana", .int 100) List.mem_cons_self
  simp at hw

end SceneInstance

end Godaemon
