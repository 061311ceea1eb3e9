import Godaemon.Services.Convergence

namespace Godaemon
set_option autoImplicit true

/-- What reaches the ReplicationService of a server over time. -/
inductive VisibilityCall (N : Type) where
  | setVisibility (node : N) (visibility : Bool)
  | setPeerVisibility (node : N) (peer : Int) (ne_one : peer ≠ 1) (visibility : Bool)
  | clearPeerVisibility (node : N) (peer : Int) (ne_one : peer ≠ 1)
  | peerConnected (peer : ClientPeer)
  | getTrueVisibility (node : N) (peer : Int)
  | getObservingPeers (node : N)

namespace ReplicationService

variable {S N : Type} [DecidableEq N] {T : ServerTree S N} {s s' : ReplicationService N}

def step (T : ServerTree S N) (s : ReplicationService N) :
    VisibilityCall N → ReplicationService N
  | .setVisibility node visibility => s.setVisibility T node visibility
  | .setPeerVisibility node peer _ visibility => s.setPeerVisibility T node peer visibility
  | .clearPeerVisibility node peer _ => s.clearPeerVisibility T node peer
  | .peerConnected peer => s.peerConnected T peer
  | .getTrueVisibility node peer => (s.getTrueVisibility T node peer).2
  | .getObservingPeers node => (s.getObservingPeers T node).2

/-- A call that leaves nothing stale behind. -/
def Safe (T : ServerTree S N) (s : ReplicationService N) : VisibilityCall N → Prop
  | .setVisibility node visibility =>
    SafeChange T s node s.clients (fun entry => entry.set 1 visibility) 1
  | .setPeerVisibility node peer _ visibility =>
    SafeChange T s node [peer] (fun entry => entry.set peer visibility) peer
  | .clearPeerVisibility node peer _ =>
    SafeChange T s node [peer] (fun entry => entry.erase peer) peer
  | _ => True

theorem Fresh.answer (hf : Fresh T s) : s.answer T n p = s.effective T n p := by
  rw [ReplicationService.answer]
  cases hc : s.cached n p with
  | none => rfl
  | some b => exact hf n p b hc

theorem Queried.fresh (h : Queried T s s' A) (hf : Fresh T s) : Fresh T s' := by
  intro n p b hc
  rw [effective_congr h.visibility]
  by_cases ha : T.alwaysVisible n = false ∧ A n p
  · rw [h.hit n p ha.1 ha.2, hf.answer] at hc
    exact (Option.some.inj hc).symm
  · rw [h.rest n p (by cases hv : T.alwaysVisible n <;> simp_all)] at hc
    exact hf n p b hc

theorem Queried.told_eq (h : Queried T s s' A) : s'.told p n = s.told p n := by
  rw [told, h.sent, told]

theorem Queried.converged (h : Queried T s s' A) (hc : Converged T s) : Converged T s' := by
  intro p hp n
  rw [h.peers] at hp
  rw [h.told_eq, h.visibility, effective_congr h.visibility]
  exact hc p hp n

theorem Queried.tidy (h : Queried T s s' A) (ht : Tidy T s) : Tidy T s' := by
  refine ⟨fun p n htold => ?_, fun p n htold => ?_, fun n p b hc => ?_, fun p hp => ?_⟩
  · rw [h.told_eq] at htold
    have hc := ht.told_cached p n htold
    by_cases ha : A n p
    · rw [h.hit n p (ht.cached_plain n p true hc) ha, answer, hc, Option.getD_some]
    · rw [h.rest n p (.inr ha), hc]
  · rw [h.told_eq] at htold
    rw [h.peers]
    exact ht.told_peer p n htold
  · cases hv : T.alwaysVisible n with
    | false => rfl
    | true =>
      rw [h.rest n p (.inl hv)] at hc
      rw [← hv]
      exact ht.cached_plain n p b hc
  · rw [h.peers] at hp
    exact ht.client p hp

/-- What holds between calls. -/
structure Settled (T : ServerTree S N) (s : ReplicationService N) : Prop where
  tidy : Tidy T s
  converged : Converged T s
  fresh : Fresh T s

theorem Queried.settled (h : Queried T s s' A) (hs : Settled T s) : Settled T s' :=
  ⟨h.tidy hs.tidy, h.converged hs.converged, h.fresh hs.fresh⟩

theorem Settled.start : Settled T (start : ReplicationService N) := by
  have htold (p : Int) (n : N) :
      (ReplicationService.start : ReplicationService N).told p n = false :=
    rfl
  have hcached (n : N) (p : Int) :
      (ReplicationService.start : ReplicationService N).cached n p = none := rfl
  have hpeers : (ReplicationService.start : ReplicationService N).peers = [] := rfl
  refine ⟨⟨?_, ?_, ?_, ?_⟩, ?_, ?_⟩
  · simp [htold]
  · simp [htold]
  · simp [hcached]
  · simp [hpeers]
  · simp [Converged, hpeers]
  · simp [Fresh, hcached]

theorem changeVisibility_iff (hs : Settled T s) (ho : Others s targets edit clearPeer) :
    (Converged T (s.changeVisibility T node targets edit clearPeer) ∧
      Fresh T (s.changeVisibility T node targets edit clearPeer) ↔
        SafeChange T s node targets edit clearPeer) ∧
      (SafeChange T s node targets edit clearPeer →
        Settled T (s.changeVisibility T node targets edit clearPeer)) := by
  cases hcan : s.canRegister T node with
  | false =>
    have hsafe : SafeChange T s node targets edit clearPeer := fun h => by
      rw [hcan] at h
      cases h
    rw [changeVisibility_of_not_canRegister hcan]
    exact ⟨⟨fun _ => hsafe, fun _ => ⟨hs.converged, hs.fresh⟩⟩, fun _ => hs⟩
  | true =>
    obtain ⟨mid, h⟩ := changeVisibility_spec hcan targets edit clearPeer
    have hback (hsafe : SafeChange T s node targets edit clearPeer) :
        Settled T (s.changeVisibility T node targets edit clearPeer) := by
      obtain ⟨ha, hd⟩ := hsafe hcan
      have hc := h.converged hs.tidy hs.converged hs.fresh ha hd ho
      have hf := h.fresh hs.tidy hs.fresh hd
      exact ⟨h.tidy hs.tidy hs.converged ho hc hf, hc, hf⟩
    refine ⟨⟨fun hcf _ => ?_, fun hsafe => ?_⟩, hback⟩
    · exact h.safe_of_converged hs.tidy hs.converged hs.fresh hcf.1 hcf.2
    · exact ⟨(hback hsafe).converged, (hback hsafe).fresh⟩

theorem others_setVisibility (ht : Tidy T s) : Others s s.clients edit 1 := by
  intro p hp hc
  exact absurd (List.mem_filter.2 ⟨hp, by simpa using ht.client p hp⟩) hc

omit [DecidableEq N] in
theorem others_setPeerVisibility (hq : q ≠ 1) :
    Others s [q] (fun entry => entry.set q v) q := by
  intro p _ hc
  have hpq : p ≠ q := by simpa using hc
  exact ⟨hq, hpq, fun entry => value_set_ne entry hpq hq⟩

omit [DecidableEq N] in
theorem others_clearPeerVisibility (hq : q ≠ 1) :
    Others s [q] (fun entry => entry.erase q) q := by
  intro p _ hc
  have hpq : p ≠ q := by simpa using hc
  exact ⟨hq, hpq, fun entry => value_erase_ne entry hpq hq⟩

/-- A peer that connects is told about the registered nodes that it may see, and they are
cached. -/
theorem peerConnected_spec (hf : Fresh T s) {q : Int} (hq : q ∉ s.peers) :
    (s.peerConnected T q).replicationVisibility = s.replicationVisibility ∧
      (s.peerConnected T q).peers = s.peers ++ [q] ∧
      (∀ p n, (s.peerConnected T q).told p n = (s.told p n || (p = q && n ∈ s.replicationVisibility
        && !T.alwaysVisible n && s.effective T n q))) ∧
      ∀ n p, (s.peerConnected T q).cached n p =
        if T.alwaysVisible n = false ∧ n ∈ s.replicationVisibility ∧ p = q
        then some (s.effective T n p) else s.cached n p := by
  obtain ⟨s2, added, hqd, hadded, hrun⟩ := peerConnected_run T hq
  have hanswer (n : N) (p : Int) :
      answer T { s with peers := s.peers ++ [q] } n p = s.effective T n p := hf.answer
  have hmem (n : N) : n ∈ added ↔ n ∈ s.replicationVisibility ∧ T.alwaysVisible n = false ∧
      s.effective T n q = true := by
    rw [hadded, hf.answer]
  obtain ⟨ms, hframe, _⟩ := updateVisibility_frame T s2 q added []
  refine ⟨?_, ?_, fun p n => ?_, fun n p => ?_⟩
  · rw [hrun, hframe]
    exact hqd.visibility
  · rw [hrun, hframe]
    exact hqd.peers
  · have hn : n ≠ T.root ∨ n ∉ added := by
      cases hv : T.alwaysVisible n with
      | false => exact .inl (ne_root_of_not_alwaysVisible hv)
      | true => exact .inr (fun hm => by rw [(hmem n).1 hm |>.2.1] at hv; cases hv)
    have hpeers2 : s2.peers = s.peers ++ [q] := hqd.peers
    have htold2 : s2.told p n = s.told p n := hqd.told_eq
    rw [hrun, told_updateVisibility hn, hpeers2, htold2]
    by_cases hp : p = q
    · subst hp
      by_cases hm : n ∈ added
      · have hm' := (hmem n).1 hm
        simp [hm, hm'.1, hm'.2.1, hm'.2.2]
      · have hno : (decide (n ∈ s.replicationVisibility) && !T.alwaysVisible n &&
            s.effective T n p) = false := by
          rw [Bool.eq_false_iff]
          exact fun h => hm ((hmem n).2 (by simpa [and_assoc] using h))
        simp only [List.mem_append, List.mem_singleton, or_true, and_self, ↓reduceIte, hm,
          List.not_mem_nil, decide_true, Bool.true_and, hno, Bool.or_false]
    · rw [if_neg (fun h => hp h.1.symm)]
      simp [hp]
  · rw [hrun, hframe]
    change s2.cached n p = _
    by_cases ha : T.alwaysVisible n = false ∧ n ∈ s.replicationVisibility ∧ p = q
    · rw [if_pos ha, hqd.hit n p ha.1 ha.2, hanswer]
    · rw [if_neg ha, hqd.rest n p (by cases hv : T.alwaysVisible n <;> simp_all)]
      rfl

theorem peerConnected_settled (hs : Settled T s) (q : ClientPeer) :
    Settled T (s.peerConnected T q) := by
  by_cases hq : (q : Int) ∈ s.peers
  · rw [peerConnected, if_pos hq]
    exact hs
  · obtain ⟨hvis, hpeers, htold, hcached⟩ := peerConnected_spec (T := T) hs.fresh hq
    have heff (n : N) (p : Int) : (s.peerConnected T q).effective T n p = s.effective T n p :=
      effective_congr hvis
    have hunknown (n : N) : s.told q n = false := by
      cases htq : s.told q n with
      | false => rfl
      | true => exact absurd (hs.tidy.told_peer q n htq) hq
    refine ⟨⟨fun p n h => ?_, fun p n h => ?_, fun n p b h => ?_, fun p hp => ?_⟩,
      fun p hp n => ?_, fun n p b h => ?_⟩
    · rw [htold, Bool.or_eq_true] at h
      rw [hcached]
      rcases h with h | h
      · have hc := hs.tidy.told_cached p n h
        rw [hc, ← hs.fresh n p true hc, ite_self]
      · simp only [Bool.and_eq_true, decide_eq_true_eq, Bool.not_eq_true'] at h
        obtain ⟨⟨⟨rfl, h1⟩, h2⟩, h3⟩ := h
        rw [if_pos ⟨h2, h1, rfl⟩, h3]
    · rw [htold, Bool.or_eq_true] at h
      rw [hpeers]
      rcases h with h | h
      · exact List.mem_append_left _ (hs.tidy.told_peer p n h)
      · simp only [Bool.and_eq_true, decide_eq_true_eq] at h
        exact List.mem_append_right _ (by simp [h.1.1.1])
    · rw [hcached] at h
      split at h
      · next ha => exact ha.1
      · exact hs.tidy.cached_plain n p b h
    · rw [hpeers, List.mem_append, List.mem_singleton] at hp
      rcases hp with hp | rfl
      · exact hs.tidy.client p hp
      · exact q.ne_one
    · rw [hpeers, List.mem_append, List.mem_singleton] at hp
      rw [htold, hvis, heff]
      by_cases hpq : p = q
      · subst hpq
        rw [hunknown]
        simp [and_assoc]
      · simp only [hpq, decide_false, Bool.false_and, Bool.or_false]
        exact hs.converged p (hp.resolve_right hpq) n
    · rw [heff]
      rw [hcached] at h
      split at h
      · exact (Option.some.inj h).symm
      · exact hs.fresh n p b h

theorem step_iff (hs : Settled T s) (call : VisibilityCall N) :
    (Converged T (step T s call) ∧ Fresh T (step T s call) ↔ Safe T s call) ∧
      (Safe T s call → Settled T (step T s call)) := by
  have hsettled {t : ReplicationService N} (h : Settled T t) :
      (Converged T t ∧ Fresh T t ↔ True) ∧ (True → Settled T t) :=
    ⟨iff_true_intro ⟨h.converged, h.fresh⟩, fun _ => h⟩
  cases call with
  | setVisibility node v =>
    simp only [step, Safe, setVisibility]
    exact changeVisibility_iff hs (others_setVisibility hs.tidy)
  | setPeerVisibility node q hq v =>
    simp only [step, Safe, setPeerVisibility]
    exact changeVisibility_iff hs (others_setPeerVisibility hq)
  | clearPeerVisibility node q hq =>
    simp only [step, Safe, clearPeerVisibility]
    exact changeVisibility_iff hs (others_clearPeerVisibility hq)
  | peerConnected q => exact hsettled (peerConnected_settled hs q)
  | getTrueVisibility node q =>
    exact hsettled ((getTrueVisibility_spec T s node q).2.settled hs)
  | getObservingPeers node => exact hsettled ((getObservingPeers_spec T s node).2.settled hs)

/-- Along every run of safe calls the peers are told exactly what they may see; and the runs
that keep the peers and the cache right throughout are the runs of safe calls. -/
theorem visibility_converges (T : ServerTree S N) (calls : List (VisibilityCall N)) :
    (Runs.Guarded (step T) (Safe T) start calls →
      Runs.Always (step T) (Converged T) start calls) ∧
    (Runs.Always (step T) (fun s => Converged T s ∧ Fresh T s) start calls ↔
      Runs.Guarded (step T) (Safe T) start calls) := by
  have hiff : Runs.Always (step T) (fun s => Converged T s ∧ Fresh T s) start calls ↔
      Runs.Guarded (step T) (Safe T) start calls :=
    Runs.always_iff_guarded (I := Settled T) (fun s call hs _ hg => (step_iff hs call).2 hg)
      (fun s call hs _ => (step_iff hs call).1) .start
      ⟨Settled.start.converged, Settled.start.fresh⟩
  exact ⟨fun hg => (hiff.2 hg).mono (fun _ h => h.1), hiff⟩

/-- A client connects, the visibility of a scene is asked for before it is ever set, and then the
scene is made visible: the client is never told. -/
theorem visibility_diverges :
    ¬ Runs.Always (step (smallTree (fun _ => (none : Option Unit))))
      (Converged (smallTree (fun _ => (none : Option Unit)))) start
      [.peerConnected .two, .getTrueVisibility .scene 2,
        .setVisibility .scene true] := by
  intro h
  have hc := (h.last 2 (by decide) .scene).2 ⟨by decide, by decide, by decide⟩
  revert hc
  decide

end ReplicationService

end Godaemon
