import Godaemon.Services.Ownership

namespace Godaemon
set_option autoImplicit true

variable {S N : Type} [DecidableEq N] {T : ServerTree S N}

namespace ReplicationService

variable {s s' : ReplicationService N}

/-- What a call of the visibility part does to registrations, peers and messages. -/
structure Extends (T : ServerTree S N) (s s' : ReplicationService N) : Prop where
  visibility : ∀ n ∈ s.replicationVisibility, n ∈ s'.replicationVisibility
  peers : ∀ p ∈ s.peers, p ∈ s'.peers
  sends : ∃ ms, s'.sent = s.sent ++ ms ∧ ∀ m ∈ ms, m.peer ∈ s'.peers ∧
    ∀ n, n ∈ m.added ∨ n ∈ m.removed →
      n ∈ s'.replicationVisibility ∧ T.alwaysVisible n = false

theorem Extends.refl : Extends T s s :=
  ⟨fun _ h => h, fun _ h => h, [], by simp, by simp⟩

theorem Queried.extends (h : Queried T s s' A) : Extends T s s' := by
  rw [h.frame]
  exact ⟨fun _ h => h, fun _ h => h, [], by simp, by simp⟩

end ReplicationService

open ReplicationService

namespace ClientView

variable {v v' v'' : ClientView N} {R : N → Prop} {o : N → Int}

/-- Updates that come with owners `o` have been processed: the client's own root and services
are untouched, and every other node it has is new, with its owner, or as it was. -/
structure Updated (T : ServerTree S N) (R : N → Prop) (o : N → Int) (v v' : ClientView N) :
    Prop where
  native_has : ∀ n, T.alwaysVisible n = true → v'.has n = v.has n
  native_owner : ∀ n, T.alwaysVisible n = true → v'.owner n = v.owner n
  plain : ∀ n, T.alwaysVisible n = false → v'.has n = true →
    R n ∧ v'.owner n = some (o n) ∨ v.has n = true ∧ v'.owner n = v.owner n

theorem Updated.refl : Updated T R o v v :=
  ⟨fun _ _ => rfl, fun _ _ => rfl, fun _ _ h => .inr ⟨h, rfl⟩⟩

theorem Updated.trans (h : Updated T R o v v') (h' : Updated T R o v' v'') :
    Updated T R o v v'' := by
  apply Updated.mk
  · intro n hn
    rw [h'.native_has n hn, h.native_has n hn]
  · intro n hn
    rw [h'.native_owner n hn, h.native_owner n hn]
  · intro n hn hhas
    rcases h'.plain n hn hhas with hnew | ⟨hold, he⟩
    · exact .inl hnew
    · rw [he]
      exact h.plain n hn hold

end ClientView

namespace OwnershipState

variable {s s' : OwnershipState N}

/-- What the clients hold in every state that a run reaches: their root and services, of which
they only know the owner through a change of owner, and registered nodes with an owner. -/
structure Known (T : ServerTree S N) (s : OwnershipState N) : Prop where
  native_has : ∀ p n, T.alwaysVisible n = true → (s.view T p).has n = true
  native_owner : ∀ p n, T.alwaysVisible n = true → (s.view T p).owner n ≠ none →
    n ≠ T.root ∧ p ∈ s.service.peers ∧ n ∈ s.service.replicationVisibility
  plain : ∀ p n, T.alwaysVisible n = false → (s.view T p).has n = true →
    p ∈ s.service.peers ∧ n ∈ s.service.replicationVisibility ∧
      ((s.view T p).owner n).isSome = true

/-- A change of the owner of a node gets through to a client: it observes the node and has it,
and the node is not the root. -/
def Reaches (T : ServerTree S N) (s : OwnershipState N) (p : Int) (node : N) : Prop :=
  p ∈ (s.service.getObservingPeers T node).1 ∧ p ∈ s.service.peers ∧
    node ≠ T.root ∧ (s.view T p).has node = true

instance (s : OwnershipState N) (p : Int) (node : N) : Decidable (s.Reaches T p node) :=
  inferInstanceAs (Decidable (_ ∧ _ ∧ _ ∧ _))

theorem clientOwner_of_owner (h : (s.view T p).owner n = some q) : s.clientOwner T p n = q :=
  SceneTree.getNodeOwner_of_meta h

/-- What a change of owner does on the server and on each client. -/
structure OwnerSet (T : ServerTree S N) (s s' : OwnershipState N) (node : N) (peer : PeerId) :
    Prop where
  visibility : s'.service.replicationVisibility = s.service.replicationVisibility
  peers : s'.service.peers = s.service.peers
  server : ∀ n, s'.serverOwner T n =
    if T.Inherits s.ownerMeta n node then peer.id else s.serverOwner T n
  view : ∀ p, s'.view T p = if s.Reaches T p node then
    { s.view T p with owner := Function.update (s.view T p).owner node (some peer.id) }
    else s.view T p

theorem OwnerSet.has (h : OwnerSet T s s' node peer) (p : Int) (n : N) :
    (s'.view T p).has n = (s.view T p).has n := by
  rw [h.view]
  split <;> rfl

theorem OwnerSet.owner (h : OwnerSet T s s' node peer) (p : Int) (n : N) :
    (s'.view T p).owner n =
      if n = node ∧ s.Reaches T p node then some peer.id else (s.view T p).owner n := by
  rw [h.view]
  by_cases hr : s.Reaches T p node
  · simp only [hr, ↓reduceIte, Function.update_apply, and_true]
  · simp only [hr, ↓reduceIte, and_false]

/-- On a client a new owner concerns the node alone: everything that it could be inherited by
has an owner of its own. -/
theorem OwnerSet.client (h : OwnerSet T s s' node peer) (hk : Known T s)
    (hhas : (s.view T p).has n = true) :
    s'.clientOwner T p n =
      if n = node ∧ s.Reaches T p node then peer.id else s.clientOwner T p n := by
  by_cases hn : n = node ∧ s.Reaches T p node
  · rw [if_pos hn]
    apply clientOwner_of_owner
    rw [h.owner, if_pos hn]
  · rw [if_neg hn]
    cases hv : T.alwaysVisible n with
    | false =>
      obtain ⟨q, hq⟩ := Option.isSome_iff_exists.1 (hk.plain p n hv hhas).2.2
      rw [clientOwner_of_owner hq]
      apply clientOwner_of_owner
      rw [h.owner, if_neg hn, hq]
    | true =>
      apply SceneTree.getNodeOwner_congr
      intro m hm
      rw [h.owner, if_neg]
      rintro ⟨rfl, hr⟩
      -- above a root or service there is only the root, which no change of owner reaches
      rcases Forest.mem_path_iff.1 hm with rfl | ⟨c, hc, hmc⟩
      · exact hn ⟨rfl, hr⟩
      · have hroot : n ≠ T.root := by
          rintro rfl
          rw [T.parent_root] at hc
          cases hc
        have hs : T.isService n = true := by
          simpa [SceneTree.alwaysVisible, hroot] using hv
        rw [T.service_parent n hs] at hc
        cases hc
        rw [Forest.path_of_root T.parent_root, List.mem_singleton] at hmc
        exact hr.2.2.1 hmc

theorem Known.start (owner : N → Option PeerId) : Known T (.start owner) :=
  ⟨fun _ _ hn => hn, fun _ _ _ ho => absurd rfl ho, fun _ _ hn hhas => by
    rw [show ((OwnershipState.start owner).view T _).has = T.alwaysVisible from rfl, hn] at hhas
    cases hhas⟩

end OwnershipState

end Godaemon
