import Godaemon.Services.BatchHierarchy

namespace Godaemon
set_option autoImplicit true

theorem BatchNode.existing_injective : (BatchNode.existing : N → BatchNode N).Injective :=
  fun _ _ h => BatchNode.existing.inj h

/-- A repository, among nodes to come. -/
def Repository.born (r : Repository N) : Repository (BatchNode N) :=
  ⟨r.objectToId.mapKeys .existing BatchNode.existing_injective,
    r.idToObject.mapValues fun _ => .existing, r.currentId⟩

namespace Repository

variable {N : Type} [DecidableEq N] {r : Repository N}

/-- The two maps are inverse to each other. -/
def Inverse (r : Repository N) : Prop :=
  ∀ n i, r.objectToId.get? n = some i ↔ r.idToObject.get? i = some n

theorem Inverse.born (h : r.Inverse) : r.born.Inverse := by
  intro node i
  rw [Repository.born, Dict.get?_mapValues, Option.map_eq_some_iff]
  constructor
  · intro hget
    obtain ⟨n, rfl, hn⟩ := Dict.exists_of_get?_mapKeys _ BatchNode.existing_injective hget
    exact ⟨n, (h n i).1 hn, rfl⟩
  · rintro ⟨n, hn, rfl⟩
    rw [Dict.get?_mapKeys]
    exact (h n i).2 hn

theorem Inverse.addObject (h : r.Inverse) {n : N} {i : Int} (hi : i ≠ -1)
    (hn : ∀ j, r.objectToId.get? n = some j → j = i)
    (hfree : ∀ m, r.idToObject.get? i = some m → m = n) : (r.addObject n i).2.Inverse := by
  intro m j
  rw [Repository.addObject, if_neg hi, if_neg hi, Dict.get?_set, Dict.get?_set]
  by_cases hm : m = n
  · rw [if_pos hm, hm]
    by_cases hj : j = i
    · rw [if_pos hj, hj]
      exact iff_of_true rfl rfl
    · rw [if_neg hj, ← h n j]
      refine iff_of_false (fun he => hj (Option.some.inj he).symm) fun he => hj (hn j he)
  · rw [if_neg hm]
    by_cases hj : j = i
    · rw [if_pos hj, hj, h m i]
      exact iff_of_false (fun he => hm (hfree m he)) fun he => hm (Option.some.inj he).symm
    · rw [if_neg hj]
      exact h m j

theorem Inverse.removeObject (h : r.Inverse) (n : N) : (r.removeObject n).Inverse ∧
    ∀ i m, (r.removeObject n).idToObject.get? i = some m ↔
      r.idToObject.get? i = some m ∧ m ≠ n := by
  have hid (i : Int) (m : N) : (r.removeObject n).idToObject.get? i = some m ↔
      r.idToObject.get? i = some m ∧ m ≠ n := by
    rw [Repository.removeObject]
    cases hn : r.objectToId.get? n with
    | none =>
      refine ⟨fun hm => ⟨hm, ?_⟩, fun hm => hm.1⟩
      rintro rfl
      rw [(h m i).2 hm] at hn
      cases hn
    | some j =>
      have hj := (h n j).1 hn
      simp only [Dict.get?_erase]
      by_cases hij : i = j
      · rw [if_pos hij, hij, hj]
        refine iff_of_false (fun he => by cases he) ?_
        rintro ⟨he, hne⟩
        exact hne (Option.some.inj he).symm
      · rw [if_neg hij]
        refine ⟨fun hm => ⟨hm, ?_⟩, fun hm => hm.1⟩
        rintro rfl
        rw [(h m i).2 hm] at hn
        exact hij (Option.some.inj hn)
  refine ⟨fun m i => ?_, hid⟩
  rw [hid, ← h m i, Repository.removeObject, Dict.get?_erase]
  by_cases hm : m = n
  · simp [hm]
  · simp [hm]

theorem Inverse.removeObjects (h : r.Inverse) (nodes : List N) :
    (nodes.foldl Repository.removeObject r).Inverse ∧
    ∀ i m, (nodes.foldl Repository.removeObject r).idToObject.get? i = some m ↔
      r.idToObject.get? i = some m ∧ m ∉ nodes := by
  induction nodes generalizing r with
  | nil => exact ⟨h, fun i m => by simp⟩
  | cons n nodes ih =>
    obtain ⟨hfirst, hid⟩ := h.removeObject n
    obtain ⟨hrest, hids⟩ := ih hfirst
    refine ⟨hrest, fun i m => ?_⟩
    rw [List.foldl_cons, hids, hid, List.mem_cons, not_or, and_assoc]

end Repository

namespace BatchWorld

variable {N : Type} [DecidableEq N] {w : BatchWorld N} {r : Repository (BatchNode N)}
  {F : Forest N} {R : Int → BatchNode N → Prop} {added : List AddedNode}

/-- An id is for one node, and a node has one id. -/
structure OneToOne (R : Int → BatchNode N → Prop) : Prop where
  node : ∀ i x y, R i x → R i y → x = y
  id : ∀ i j x, R i x → R j x → i = j

/-- The maps of a repository are inverse to each other, and have nodes that are there under ids
that are theirs. -/
structure Fits (w : BatchWorld N) (R : Int → BatchNode N → Prop) (r : Repository (BatchNode N)) :
    Prop where
  inverse : r.Inverse
  within : ∀ i x, r.idToObject.get? i = some x → R i x ∧ w.isValid x = true

theorem Fits.getObject (h : w.Fits R r) (i : Int) :
    r.getObject w.isValid i = (r.idToObject.get? i, r) :=
  Repository.getObject_of_valid fun x hx => (h.within i x hx).2

theorem Fits.addObject (h : w.Fits R r) (hR : OneToOne R) {x : BatchNode N} {i : Int}
    (hx : R i x) (hi : i ≠ -1) (hvalid : w.isValid x = true) :
    w.Fits R (r.addObject x i).2 where
  inverse := by
    apply h.inverse.addObject hi
    · intro j hj
      exact hR.id j i x (h.within j x ((h.inverse x j).1 hj)).1 hx
    · intro y hy
      exact hR.node i y x (h.within i y hy).1 hx
  within j y hy := by
    rw [Repository.addObject, if_neg hi, if_neg hi, Dict.get?_set] at hy
    split at hy
    · next hj =>
      rw [← Option.some.inj hy, hj]
      exact ⟨hx, hvalid⟩
    · exact h.within j y hy

theorem Fits.addSlot {b : SceneBuild N} (h : w.Fits R b.repository) (hR : OneToOne R)
    {nodeId : Int} {path : ScenePath} {x : BatchNode N} (hx : nodeId ≠ 0 → R nodeId x)
    (hi : nodeId ≠ -1) (hvalid : w.isValid x = true) :
    w.Fits R (w.addSlot nodeId path x b).repository := by
  rw [BatchWorld.addSlot]
  by_cases hzero : nodeId ≠ 0
  · rw [if_pos hzero, h.getObject]
    simp only
    split
    · exact h.addObject hR (hx hzero) hi hvalid
    · exact h
  · rw [if_neg hzero]
    exact h

theorem Fits.registerSlots {rootId : Int} {has : ScenePath → Bool} {nodeIds : List Int}
    (hR : OneToOne R) (slots : List (Nat × ScenePath)) (idx : Nat) {b b' : SceneBuild N}
    (h : w.Fits R b.repository)
    (hslots : ∀ k nodeIdx path nodeId, slots[k]? = some (nodeIdx, path) →
      nodeIdx < nodeIds.length → has path = true → nodeIds[idx + k]? = some nodeId →
        (nodeId ≠ 0 → R nodeId (.created rootId path)) ∧ nodeId ≠ -1)
    (hb : w.registerSlots rootId has nodeIds idx slots b = some b') :
    w.Fits R b'.repository := by
  induction slots generalizing idx b with
  | nil =>
    cases hb
    exact h
  | cons slot slots ih =>
    obtain ⟨nodeIdx, path⟩ := slot
    have hrest (k nodeIdx : Nat) (path : ScenePath) (nodeId : Int)
        (hk : slots[k]? = some (nodeIdx, path)) (hlt : nodeIdx < nodeIds.length)
        (hhas : has path = true) (hid : nodeIds[idx + 1 + k]? = some nodeId) :
        (nodeId ≠ 0 → R nodeId (.created rootId path)) ∧ nodeId ≠ -1 := by
      rw [Nat.add_assoc, Nat.add_comm 1 k] at hid
      exact hslots (k + 1) nodeIdx path nodeId hk hlt hhas hid
    rw [BatchWorld.registerSlots] at hb
    split at hb
    · exact ih (idx + 1) h hrest hb
    · next hlt =>
      split at hb
      · exact ih (idx + 1) h hrest hb
      · next hhas =>
        split at hb
        · cases hb
        · next nodeId hid =>
          obtain ⟨hx, hi⟩ := hslots 0 nodeIdx path nodeId rfl (Nat.lt_of_not_le hlt)
            (Bool.eq_true_of_not_eq_false hhas) hid
          exact ih (idx + 1) (h.addSlot hR hx hi rfl) hrest hb

omit [DecidableEq N] in
theorem Batch.ne_neg_one (h : w.Batch r added) {e : AddedNode} (he : e ∈ added) {nodeId : Int}
    (hid : nodeId ∈ e.nodeIds) : nodeId ≠ -1 := by
  have hnonneg := (h.ids e he).2 nodeId hid
  omega

theorem removeDead_repository (existing : Dict ScenePath (BatchNode N))
    (dead : List (ScenePath × BatchNode N)) (s : BatchState N) :
    (removeDead existing dead s).repository = s.repository := by
  rw [(cut_removeDead existing dead s).rest]

theorem Fits.buildEntry (hR : OneToOne R) (hbatch : w.Batch r added) {e : AddedNode}
    (he : e ∈ added) (hreg : ∀ i x, w.Registers e i x → R i x) {s s' : BatchState N}
    (h : w.Fits R s.repository) (hs : w.buildEntry e s = some s') : w.Fits R s'.repository := by
  have hroot := hreg _ _ (hbatch.registers_root he)
  obtain ⟨nodeId, nodeIds, hids⟩ := List.exists_cons_of_ne_nil (hbatch.ids e he).1
  have hid : rootId e = nodeId := by
    rw [rootId, hids]
    rfl
  have hi : nodeId ≠ -1 := hbatch.ne_neg_one he (by rw [hids]; exact List.mem_cons_self)
  rw [lodeOf, hid] at hroot
  rcases hbatch.loads e he with hload | ⟨scene, hload⟩
  · simp only [BatchWorld.buildEntry, hload, hids] at hs
    split at hs
    · cases hs
    · cases hs
      exact h.addObject hR hroot hi rfl
  · simp only [BatchWorld.buildEntry, hload, hids, Option.map_eq_some_iff] at hs
    obtain ⟨b, hb, rfl⟩ := hs
    change w.Fits R (removeDead _ _ _).repository
    rw [removeDead_repository]
    rw [← hids] at hb
    refine Fits.registerSlots hR scene.slots 0 h (fun k nodeIdx path i hk hlt hhas hki => ?_) hb
    rw [Nat.zero_add] at hki
    refine ⟨fun hzero => hreg i _ ⟨path, ?_, hzero, by rw [hid]⟩,
      hbatch.ne_neg_one he (List.mem_of_getElem? hki)⟩
    rw [Reads, hload]
    exact ⟨k, nodeIdx, hk, hlt, hhas, hki⟩

theorem Fits.buildEntries (hR : OneToOne R) (hbatch : w.Batch r added)
    (hreg : ∀ e ∈ added, ∀ i x, w.Registers e i x → R i x) {entries : List AddedNode}
    (hsub : ∀ e ∈ entries, e ∈ added) {s s' : BatchState N} (h : w.Fits R s.repository)
    (hs : w.buildEntries entries s = some s') : w.Fits R s'.repository := by
  induction entries generalizing s with
  | nil =>
    cases hs
    exact h
  | cons e entries ih =>
    rw [BatchWorld.buildEntries, Option.bind_eq_some_iff] at hs
    obtain ⟨t, ht, hs⟩ := hs
    have he := hsub e List.mem_cons_self
    exact ih (fun e' he' => hsub e' (List.mem_cons_of_mem _ he'))
      (h.buildEntry hR hbatch he (hreg e he) ht) hs

theorem Fits.orderLodes (lodeIds : List Int)
    (build : Dict (BatchNode N) (BatchNode N) × BatchState N) (h : w.Fits R build.2.repository) :
    (lodeIds.foldl w.orderLode build).2.repository = build.2.repository := by
  induction lodeIds generalizing build with
  | nil => rfl
  | cons lodeId lodeIds ih =>
    have hstep : (w.orderLode build lodeId).2.repository = build.2.repository := by
      rw [orderLode]
      split
      · next lode parentId _ _ =>
        cases build.2.idsToLodes.get? parentId with
        | some parentLode => rfl
        | none =>
          simp only [tryGetParent, h.getObject]
          cases build.2.repository.idToObject.get? parentId with
          | some parentNode => rfl
          | none => rfl
      · rfl
    rw [List.foldl_cons, ih _ (hstep.symm ▸ h), hstep]

theorem addLodes_rest (lodes : List (BatchNode N × BatchNode N)) (s : BatchState N) :
    addLodes lodes s = { s with
      tree := (addLodes lodes s).tree
      addedChildren := (addLodes lodes s).addedChildren } := by
  induction lodes generalizing s with
  | nil => rfl
  | cons c lodes ih =>
    have hstep : addChild c.1 c.2 s = { s with
        tree := (addChild c.1 c.2 s).tree
        addedChildren := (addChild c.1 c.2 s).addedChildren } := by
      rw [addChild]
      split
      · rfl
      · split <;> rfl
    rw [addLodes]
    exact (ih _).trans (by rw [hstep])

omit [DecidableEq N] in
theorem Batch.not_dead_of_registers (h : w.Batch r added) {e : AddedNode} (he : e ∈ added) {i : Int}
    {x : BatchNode N} (hx : w.Registers e i x) : ¬ ∃ e' ∈ added, w.Dead e' x := by
  rintro ⟨e', he', path, hnode, _, honly⟩
  obtain ⟨path', hread, hne, rfl⟩ := hx
  obtain ⟨hroot, hpath⟩ := BatchNode.created.inj hnode
  rw [h.eq_of_rootId he he' hroot, hpath] at hread
  exact hne (honly i hread)

theorem Batch.oneToOne (h : w.Batch r added) (hinverse : r.Inverse)
    (hvalid : ∀ i x, r.idToObject.get? i = some x → w.isValid x = true) :
    OneToOne (w.Stands r added) := by
  have hold (i : Int) (x : BatchNode N) :
      (r.getObject w.isValid i).1 = some x ↔ r.idToObject.get? i = some x := by
    rw [Repository.getObject_of_valid fun x hx => hvalid i x hx]
  constructor
  · rintro i x y (⟨e, he, hx⟩ | hx) (⟨e', he', hy⟩ | hy)
    · exact h.one_node e he e' he' i x y hx hy
    · rw [h.new e he i x hx] at hy
      cases hy
    · rw [h.new e' he' i y hy] at hx
      cases hx
    · rw [hx, Option.some.injEq] at hy
      exact hy
  · rintro i j x (⟨e, he, hx⟩ | hx) (⟨e', he', hy⟩ | hy)
    · have hroot : rootId e = rootId e' := by
        obtain ⟨path, _, _, hnode⟩ := hx
        obtain ⟨path', _, _, hnode'⟩ := hy
        exact (BatchNode.created.inj (hnode.symm.trans hnode')).1
      rw [← h.eq_of_rootId he he' hroot] at hy
      exact h.one_id e he i j x hx hy
    · obtain ⟨n, hn⟩ := h.existing j x ((hold j x).1 hy)
      obtain ⟨path, _, _, hnode⟩ := hx
      rw [hn] at hnode
      cases hnode
    · obtain ⟨n, hn⟩ := h.existing i x ((hold i x).1 hx)
      obtain ⟨path, _, _, hnode⟩ := hy
      rw [hn] at hnode
      cases hnode
    · have hx' := (hinverse x i).2 ((hold i x).1 hx)
      rw [(hinverse x j).2 ((hold j x).1 hy), Option.some.injEq] at hx'
      exact hx'.symm

/-- The client after a batch: its repository has what the ids stand for, its tree is settled, and
what it frees is nowhere. -/
structure Updated (w : BatchWorld N) (r : Repository (BatchNode N)) (F : Forest N)
    (added : List AddedNode) (s : BatchState N) : Prop where
  inverse : s.repository.Inverse
  ids : ∀ i x, s.repository.idToObject.get? i = some x ↔ w.Stands r added i x
  settled : w.Settled r F added s
  metaOwner : ∀ e ∈ added, s.metaOwner.get? (lodeOf e) = some e.owner
  resource : ∀ e ∈ added, s.resource.get? (lodeOf e) = some e.uid
  queued : ∀ x ∈ s.queuedForDeletion, s.tree.parent x = none ∧ ∃ root path, x = .created root path

theorem exists_updated (hbatch : w.Batch r added) (hin : ∀ e ∈ added, w.InBounds e)
    (hinverse : r.Inverse) (hvalid : ∀ i x, r.idToObject.get? i = some x → w.isValid x = true) :
    ∃ s, w.updateVisibility added (start r F) = some s ∧ w.Updated r F added s := by
  have hone := hbatch.oneToOne hinverse hvalid
  obtain ⟨t, ht, hbuilt⟩ := (w.built_start r F).entries hbatch hin
  rw [List.nil_append] at hbuilt
  have hstart : w.Fits (w.Stands r added) r := by
    refine ⟨hinverse, fun i x hx => ⟨.inr ?_, hvalid i x hx⟩⟩
    rw [Repository.getObject_of_valid fun x hx => hvalid i x hx]
    exact hx
  have hfits : w.Fits (w.Stands r added) t.repository :=
    Fits.buildEntries hone hbatch (fun e he i x hx => .inl ⟨e, he, hx⟩) (fun _ he => he)
      (s := start r F) hstart ht
  have hmem (e : AddedNode) : e ∈ dominantFirst added ↔ e ∈ added := mem_dominantFirst
  have hroots : ((dominantFirst added).map rootId).Nodup :=
    ((dominantFirst_perm added).map rootId).nodup_iff.2 hbatch.distinct
  obtain ⟨order, repository, hfold, _⟩ := foldl_orderLode (w := w) (s := t)
    Dict.empty (fun e he => hbuilt.lodes e ((hmem e).1 he))
    (fun e he => hbuilt.parents e ((hmem e).1 he)) hroots (fun e _ => Dict.not_mem_empty)
  have hrepository := Fits.orderLodes ((dominantFirst added).map rootId) (.empty, t) hfits
  rw [hfold] at hrepository
  have hupdate : w.updateVisibility added (start r F) = some (addLodes order.entries { t with
      repository := repository
      queuedForDeletion := t.queuedForDeletion ++ ((dominantFirst added).filter
        fun e => (w.parentOf t e.parentId).isNone).map lodeOf }) := by
    rw [updateVisibility, ht, Option.map_some, hbuilt.lodeIdOrder hbatch, hfold]
  obtain ⟨order', s', hs', hordered⟩ := exists_ordered (F := F) hbatch hin
  rw [hupdate, Option.some.injEq] at hs'
  have hsettled := hordered.settled hbatch
  have hhangs := hordered.hangs hbatch
  rw [← hs'] at hsettled hhangs
  have hrest := addLodes_rest order.entries { t with
      repository := repository
      queuedForDeletion := t.queuedForDeletion ++ ((dominantFirst added).filter
        fun e => (w.parentOf t e.parentId).isNone).map lodeOf }
  refine ⟨_, hupdate, ?_, fun i x => ?_, hsettled, ?_, ?_, fun x hx => ?_⟩
  · rw [hrest]
    exact hrepository.symm ▸ hfits.inverse
  · rw [hrest, ← hbuilt.lookup, lookup, hfits.getObject]
    exact hrepository.symm ▸ Iff.rfl
  · rw [hrest]
    exact hbuilt.metaOwner
  · rw [hrest]
    exact hbuilt.resource
  · rw [hrest] at hx
    rcases List.mem_append.1 hx with hx | hx
    · obtain ⟨e, he, hdead⟩ := hbuilt.queued x hx
      refine ⟨hsettled.dead x ⟨e, he, hdead⟩, ?_⟩
      obtain ⟨path, hnode, _⟩ := hdead
      exact ⟨_, _, hnode⟩
    · obtain ⟨e, he, rfl⟩ := List.mem_map.1 hx
      obtain ⟨hmemd, hnone⟩ := List.mem_filter.1 he
      have he' := (hmem e).1 hmemd
      refine ⟨(hhangs.freed e he' fun node hstands => ?_).1, _, _, rfl⟩
      rw [(hbuilt.parentOf_iff hbatch _ _).2 hstands] at hnone
      cases hnone

end BatchWorld

end Godaemon
