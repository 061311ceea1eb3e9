import Mathlib.Logic.Function.Basic
import Godaemon.Api.Repository
import Godaemon.Lib.Runs

namespace Godaemon
set_option autoImplicit true

/-- Nodes side by side, each with the nodes below it. -/
inductive Branches (N : Type) where
  | nil
  | cons (node : N) (below beside : Branches N)

def Branches.nodes : Branches N → List N
  | .nil => []
  | .cons node below beside => node :: (below.nodes ++ beside.nodes)

/-- What the ReplicationService of a peer reads about the nodes. -/
structure SearchWorld (N : Type) where
  isServer : Bool
  /-- The script of the node or one that it extends is replicated. -/
  baseScriptReplication : N → Bool
  owner : N → Option N
  /-- The node is the root of a packed scene that is marked as replicated. -/
  replicatesScene : N → Bool

/-- What the engine has still to do for branches that are being added. -/
inductive TreeTask (N : Type) where
  | enterTree (parent : N) (nodes : Branches N)
  | propagateReady (nodes : Branches N)
  | ready (node : N) (below : Branches N)

/-- The nodes below the root, with what the ReplicationService keeps about them. -/
structure ReplicationSearch (N : Type) where
  inside : N → Bool
  isNodeReady : N → Bool
  freed : N → Bool
  agenda : List (TreeTask N)
  /-- The nodes with connections to `child_entered_tree` and `freeing`. -/
  connected : N → Bool
  repository : Repository N
  dominantReplication : List N
  /-- The nodes for which `enter_replication` and `exit_replication` have been emitted. -/
  entered : List N
  exited : List N
  /-- The calls of `set_visibility`, and the nodes whose `ready` is connected to one. -/
  setVisibility : List (N × Bool)
  visibleOnReady : List N

/-- What happens to the tree over time; `proceed` lets the engine go on with what it is adding. -/
inductive TreeEvent (N : Type) where
  | addChild (parent node : N) (below : Branches N)
  | proceed
  | removeChild (branch : List N)
  | free (node : N)

namespace ReplicationSearch

variable {N : Type} [DecidableEq N] (w : SearchWorld N)

def setupSignalReplication (s : ReplicationSearch N) (node : N) : ReplicationSearch N :=
  if !w.baseScriptReplication node then s
  else
    let s :=
      if w.isServer && (w.owner node).any (fun owner => !s.isNodeReady owner) then
        { s with dominantReplication := s.dominantReplication ++ [node] }
      else s
    { s with entered := s.entered ++ [node] }

/-- Only the server gives ids. -/
def catalogue (s : ReplicationSearch N) (node : N) : ReplicationSearch N :=
  if w.isServer && s.repository.getId node = -1 then
    let s := { s with repository := (s.repository.addObject node).2 }
    if w.replicatesScene node then
      { s with
        setVisibility := s.setVisibility ++ [(node, false)]
        visibleOnReady := s.visibleOnReady ++ [node] }
    else s
  else s

def register (s : ReplicationSearch N) (node : N) : ReplicationSearch N :=
  let s := (s.setupSignalReplication w node).catalogue w node
  { s with connected := Function.update s.connected node true }

/-- Search nodes side by side, and below those that are ready. -/
def replicationSearch (s : ReplicationSearch N) : Branches N → ReplicationSearch N
  | .nil => s
  | .cons node below beside =>
    if s.connected node then replicationSearch s beside
    else
      let s := s.register w node
      replicationSearch (if s.isNodeReady node then replicationSearch s below else s) beside

/-- A tree that is ready, before the service comes into it. -/
def ofTree (repository : Repository N) (mp : N) (nodes : Branches N) : ReplicationSearch N where
  inside n := n ∈ mp :: nodes.nodes
  isNodeReady n := n ∈ mp :: nodes.nodes
  freed _ := false
  agenda := []
  connected _ := false
  repository := repository
  dominantReplication := []
  entered := []
  exited := []
  setVisibility := []
  visibleOnReady := []

def enterTree (repository : Repository N) (mp : N) (nodes : Branches N) : ReplicationSearch N :=
  (ofTree repository mp nodes).replicationSearch w (.cons mp nodes .nil)

/-- The nodes of a task that are not yet ready to have nodes added below them. -/
def TreeTask.busy : TreeTask N → List N
  | .enterTree _ nodes => nodes.nodes
  | .propagateReady nodes => nodes.nodes
  | .ready node _ => [node]

/-- The engine starts to add a branch, maybe while it is adding others. -/
def addChild (s : ReplicationSearch N) (parent node : N) (below : Branches N) :
    ReplicationSearch N :=
  let branch := Branches.cons node below .nil
  if s.inside parent && parent ∉ s.agenda.flatMap TreeTask.busy && branch.nodes.all (!s.freed ·)
  then { s with
    agenda := .enterTree parent branch :: .propagateReady branch :: s.agenda }
  else s

/-- A node is in the tree, and its parent says so. -/
def childEnteredTree (s : ReplicationSearch N) (parent node : N) (below : Branches N) :
    ReplicationSearch N :=
  let s := { s with inside := Function.update s.inside node true }
  if s.connected parent then s.replicationSearch w (.cons node below .nil) else s

/-- The signal comes once for each node. -/
def emitReady (s : ReplicationSearch N) (node : N) : ReplicationSearch N :=
  if s.isNodeReady node then s
  else
    let s := { s with isNodeReady := Function.update s.isNodeReady node true }
    if node ∈ s.visibleOnReady then
      { s with
        setVisibility := s.setVisibility ++ [(node, true)]
        visibleOnReady := s.visibleOnReady.filter (fun n => n ≠ node) }
    else s

/-- Nodes come into the tree before those below them, and are ready after them. -/
def proceed (s : ReplicationSearch N) : ReplicationSearch N :=
  match s.agenda with
  | [] => s
  | .enterTree _ .nil :: agenda => { s with agenda := agenda }
  | .enterTree parent (.cons node below beside) :: agenda =>
    { s.childEnteredTree w parent node below with
      agenda := .enterTree node below :: .enterTree parent beside :: agenda }
  | .propagateReady .nil :: agenda => { s with agenda := agenda }
  | .propagateReady (.cons node below beside) :: agenda =>
    { s with
      agenda := .propagateReady below :: .ready node below :: .propagateReady beside :: agenda }
  | .ready node _ :: agenda => { s.emitReady node with agenda := agenda }

/-- Nothing is taken out or freed while a branch is being added. -/
def removeChild (s : ReplicationSearch N) (mp : N) (branch : List N) : ReplicationSearch N :=
  if s.agenda.isEmpty && mp ∉ branch then
    { s with inside := fun n => s.inside n && n ∉ branch }
  else s

def nodeTreeExiting (s : ReplicationSearch N) (node : N) : ReplicationSearch N :=
  let s := if w.baseScriptReplication node then { s with exited := s.exited ++ [node] } else s
  let s := { s with dominantReplication := s.dominantReplication.filter (fun n => n ≠ node) }
  if s.repository.getId node ≠ -1 then
    { s with repository := s.repository.removeObject node }
  else s

/-- A node is freed, and says so first. -/
def free (s : ReplicationSearch N) (mp node : N) : ReplicationSearch N :=
  if s.agenda.isEmpty && node ≠ mp && !s.freed node then
    let s := if s.connected node then s.nodeTreeExiting w node else s
    { s with
      connected := Function.update s.connected node false
      freed := Function.update s.freed node true
      inside := Function.update s.inside node false }
  else s

def step (mp : N) (s : ReplicationSearch N) : TreeEvent N → ReplicationSearch N
  | .addChild parent node below => s.addChild parent node below
  | .proceed => s.proceed w
  | .removeChild branch => s.removeChild mp branch
  | .free node => s.free w mp node

/-- The calls of `set_visibility` about a node. -/
def visibilityCalls (s : ReplicationSearch N) (node : N) : List Bool :=
  (s.setVisibility.filter (fun call => call.1 = node)).map Prod.snd

/-- The calls that there should have been about a node which has been found: the root of a scene
that is replicated is hidden, and shown when it is ready. -/
def dueCalls (s : ReplicationSearch N) (node : N) : List Bool :=
  if w.replicatesScene node then if s.isNodeReady node then [false, true] else [false] else []

/-- What holds of the nodes that have been found; `old` are those of the tree and the repository
that the service has come to. -/
structure Found (old : N → Prop) (s : ReplicationSearch N) : Prop where
  catalogued : w.isServer = true → ∀ n, s.connected n = true → n ∈ s.repository.objectToId
  coherent : s.repository.Coherent
  unknown : ∀ n ∈ s.repository.objectToId, old n ∨ s.connected n = true
  unready : ∀ n, s.isNodeReady n = true → old n ∨ s.connected n = true ∨ s.freed n = true
  left : ∀ n, s.freed n = true → s.connected n = false
  entered : ∀ n, n ∈ s.entered ↔
    w.baseScriptReplication n = true ∧ (s.connected n = true ∨ n ∈ s.exited)
  exited : ∀ n ∈ s.exited, s.freed n = true ∧ w.baseScriptReplication n = true
  entersOnce : s.entered.Nodup
  exitsOnce : s.exited.Nodup
  called : ∀ n, s.visibilityCalls n ≠ [] → s.connected n = true ∨ s.freed n = true
  hidden : ∀ n ∈ s.visibleOnReady, s.visibilityCalls n = [false]
  calls : w.isServer = true → ∀ n, s.connected n = true → ¬ old n →
    s.visibilityCalls n = s.dueCalls w n
  waits : w.isServer = true → ∀ n, s.connected n = true → ¬ old n → s.dueCalls w n = [false] →
    n ∈ s.visibleOnReady

/-- A search finds nodes and leaves the tree alone. -/
structure Searched (s s' : ReplicationSearch N) : Prop where
  inside : s'.inside = s.inside
  ready : s'.isNodeReady = s.isNodeReady
  agenda : s'.agenda = s.agenda
  freed : s'.freed = s.freed
  connected : ∀ n, s.connected n = true → s'.connected n = true
  size : s.repository.objectToId.size ≤ s'.repository.objectToId.size
  ids : ∀ n, s.repository.getId n ≠ -1 → s'.repository.getId n = s.repository.getId n

variable {w} {s s' : ReplicationSearch N} {old : N → Prop}

omit [DecidableEq N] in
theorem nodes_cons : n ∈ (Branches.cons node below beside).nodes ↔
    n = node ∨ n ∈ below.nodes ∨ n ∈ beside.nodes := by
  rw [Branches.nodes, List.mem_cons, List.mem_append]

theorem Searched.refl (s : ReplicationSearch N) : Searched s s :=
  ⟨rfl, rfl, rfl, rfl, fun _ h => h, Nat.le_refl _, fun _ _ => rfl⟩

theorem Searched.trans (h : Searched s t) (h' : Searched t s') : Searched s s' := by
  constructor
  · exact h'.inside.trans h.inside
  · exact h'.ready.trans h.ready
  · exact h'.agenda.trans h.agenda
  · exact h'.freed.trans h.freed
  · exact fun n hn => h'.connected n (h.connected n hn)
  · exact Nat.le_trans h.size h'.size
  · intro n hn
    have ht : t.repository.getId n ≠ -1 := by
      rw [h.ids n hn]
      exact hn
    exact (h'.ids n ht).trans (h.ids n hn)

omit [DecidableEq N] in
theorem setupSignalReplication_eq : s.setupSignalReplication w n = { s with
    dominantReplication := (s.setupSignalReplication w n).dominantReplication
    entered := s.entered ++ if w.baseScriptReplication n then [n] else [] } := by
  rw [setupSignalReplication]
  cases w.baseScriptReplication n with
  | false => simp
  | true =>
    simp only [Bool.not_true, Bool.false_eq_true, if_false, if_true]
    split
    · rfl
    · rfl

theorem visibilityCalls_append (s : ReplicationSearch N) (n : N) (visible : Bool) :
    ({ s with setVisibility := s.setVisibility ++ [(n, visible)] } :
      ReplicationSearch N).visibilityCalls m =
        s.visibilityCalls m ++ if n = m then [visible] else [] := by
  rw [visibilityCalls, visibilityCalls, List.filter_append, List.map_append]
  by_cases h : n = m
  · simp [h]
  · simp [h]

theorem getId_eq_neg_one_iff {r : Repository N} (h : r.Coherent) :
    r.getId n = -1 ↔ n ∉ r.objectToId := by
  constructor
  · intro he hn
    have := (h.getId_of_mem hn).1
    omega
  · intro hn
    rw [Repository.getId, Dict.getD, (Dict.get?_eq_none_iff _).2 hn]
    rfl

/-- A node that is found, with what is recorded about it: a new map of ids, and whether it is hidden
until it is ready. -/
def record (w : SearchWorld N) (s : ReplicationSearch N) (n : N) (dominant : List N)
    (r : Repository N) (hides : Bool) : ReplicationSearch N :=
  { s with
    dominantReplication := dominant
    entered := s.entered ++ if w.baseScriptReplication n then [n] else []
    repository := r
    setVisibility := s.setVisibility ++ if hides then [(n, false)] else []
    visibleOnReady := s.visibleOnReady ++ if hides then [n] else []
    connected := Function.update s.connected n true }

theorem register_eq (s : ReplicationSearch N) (n : N) :
    ∃ dominant r hides, s.register w n = record w s n dominant r hides ∧
      (w.isServer = true ∧ s.repository.getId n = -1 ∧ r = (s.repository.addObject n).2 ∧
          hides = w.replicatesScene n ∨
        (w.isServer = true → s.repository.getId n ≠ -1) ∧ r = s.repository ∧ hides = false) := by
  rw [register, setupSignalReplication_eq]
  refine ⟨(s.setupSignalReplication w n).dominantReplication, ?_⟩
  by_cases h : w.isServer = true ∧ s.repository.getId n = -1
  · have hb : (w.isServer && decide (s.repository.getId n = -1)) = true := by simp [h.1, h.2]
    refine ⟨(s.repository.addObject n).2, w.replicatesScene n, ?_, .inl ⟨h.1, h.2, rfl, rfl⟩⟩
    simp only [catalogue, hb, if_true]
    cases w.replicatesScene n with
    | false => simp [record]
    | true => simp [record]
  · have hb : (w.isServer && decide (s.repository.getId n = -1)) = false := by
      rw [Bool.eq_false_iff]
      intro hb
      rw [Bool.and_eq_true, decide_eq_true_iff] at hb
      exact h hb
    refine ⟨s.repository, false, ?_, .inr ⟨fun hs hi => h ⟨hs, hi⟩, rfl, rfl⟩⟩
    simp only [catalogue, hb, Bool.false_eq_true, if_false]
    simp [record]

theorem Found.nothing (h : Found w old s) (hnew : s.connected n = false)
    (halive : s.freed n = false) : n ∉ s.entered ∧ s.visibilityCalls n = [] := by
  have hnot : ¬ s.connected n = true := by rw [hnew]; exact Bool.false_ne_true
  have hkept : ¬ s.freed n = true := by rw [halive]; exact Bool.false_ne_true
  constructor
  · intro he
    rcases ((h.entered n).1 he).2 with hc | hx
    · exact hnot hc
    · exact hkept (h.exited n hx).1
  · by_contra hc
    exact (h.called n hc).elim hnot hkept

theorem visibilityCalls_record (hides : Bool) :
    (record w s n dominant r hides).visibilityCalls m =
      s.visibilityCalls m ++ if hides ∧ n = m then [false] else [] := by
  cases hides with
  | false => simp [record, visibilityCalls]
  | true =>
    have happend := s.visibilityCalls_append (m := m) n false
    simpa [record, visibilityCalls] using happend

theorem Found.record (h : Found w old s) (hnew : s.connected n = false)
    (halive : s.freed n = false) (hr : r.Coherent)
    (hold : ∀ m ∈ s.repository.objectToId, m ∈ r.objectToId)
    (hids : ∀ m ∈ r.objectToId, m = n ∨ m ∈ s.repository.objectToId)
    (hn : w.isServer = true → n ∈ r.objectToId)
    (hhides : w.isServer = true → ¬ old n → hides = w.replicatesScene n) :
    Found w old (record w s n dominant r hides) := by
  have hne {m : N} (hm : m ≠ n) : Function.update s.connected n true m = s.connected m :=
    Function.update_of_ne hm _ _
  have hself : Function.update s.connected n true n = true := Function.update_self _ _ _
  have hmono (m : N) (hm : s.connected m = true) : Function.update s.connected n true m = true := by
    rw [Function.update_apply]
    split
    · rfl
    · exact hm
  obtain ⟨hnotEntered, hnoCalls⟩ := h.nothing hnew halive
  have hunready (hfresh : ¬ old n) : s.isNodeReady n = false := by
    rw [← Bool.not_eq_true]
    intro hready
    rcases h.unready n hready with ho | hc | hf
    · exact hfresh ho
    · exact Bool.false_ne_true (hnew.symm.trans hc)
    · exact Bool.false_ne_true (halive.symm.trans hf)
  have hdue (m : N) : (ReplicationSearch.record w s n dominant r hides).dueCalls w m =
      s.dueCalls w m := rfl
  constructor
  · intro hs m hm
    by_cases he : m = n
    · exact he ▸ hn hs
    · exact hold m (h.catalogued hs m ((hne he).symm.trans hm))
  · exact hr
  · intro m hm
    rcases hids m hm with he | hm
    · exact .inr (he ▸ hself)
    · exact (h.unknown m hm).imp_right (hmono m)
  · exact fun m hm => (h.unready m hm).imp_right fun hc => hc.imp_left (hmono m)
  · intro m hm
    have he : m ≠ n := by
      intro he
      rw [he] at hm
      exact Bool.false_ne_true (halive.symm.trans hm)
    exact (hne he).trans (h.left m hm)
  · intro m
    have hentered := h.entered m
    by_cases he : m = n
    · rw [he] at hentered ⊢
      simp only [ReplicationSearch.record, List.mem_append, hself, hnotEntered, true_or, and_true,
        false_or]
      split
      · next hbase => simp [hbase]
      · next hbase => simp [hbase]
    · simp only [ReplicationSearch.record, List.mem_append, hne he, ← hentered]
      apply or_iff_left
      intro hm
      split at hm
      · exact he (List.mem_singleton.1 hm)
      · cases hm
  · exact h.exited
  · simp only [ReplicationSearch.record]
    split
    · rw [List.nodup_append]
      refine ⟨h.entersOnce, List.nodup_singleton n, fun a ha b hb hab => ?_⟩
      rw [List.mem_singleton] at hb
      rw [hab, hb] at ha
      exact hnotEntered ha
    · rw [List.append_nil]
      exact h.entersOnce
  · exact h.exitsOnce
  · intro m hm
    by_cases he : m = n
    · exact .inl (he ▸ hself)
    · rw [visibilityCalls_record, if_neg (fun hb => he hb.2.symm), List.append_nil] at hm
      exact (h.called m hm).imp_left (hmono m)
  · intro m hm
    simp only [ReplicationSearch.record, List.mem_append] at hm
    rw [visibilityCalls_record]
    rcases hm with hm | hm
    · have he : n ≠ m := by
        intro he
        have hh := h.hidden m hm
        rw [← he, hnoCalls] at hh
        cases hh
      rw [if_neg (fun hb => he hb.2), List.append_nil]
      exact h.hidden m hm
    · split at hm
      · next hhides =>
        rw [List.mem_singleton] at hm
        rw [hm, hnoCalls, if_pos ⟨hhides, rfl⟩]
        rfl
      · cases hm
  · intro hs m hm hfresh
    rw [hdue, visibilityCalls_record]
    by_cases he : n = m
    · rw [← he] at hfresh ⊢
      rw [hnoCalls, dueCalls, hunready hfresh, hhides hs hfresh]
      cases w.replicatesScene n <;> simp
    · rw [if_neg (fun hb => he hb.2), List.append_nil]
      exact h.calls hs m ((hne (Ne.symm he)).symm.trans hm) hfresh
  · intro hs m hm hfresh hwaits
    rw [hdue] at hwaits
    by_cases he : m = n
    · rw [he] at hfresh hwaits ⊢
      have hscene : w.replicatesScene n = true := by
        rw [dueCalls] at hwaits
        split at hwaits
        · next hscene => exact hscene
        · cases hwaits
      apply List.mem_append_right
      rw [hhides hs hfresh, if_pos hscene]
      exact List.mem_singleton_self n
    · exact List.mem_append_left _ (h.waits hs m ((hne he).symm.trans hm) hfresh hwaits)

theorem register_connected :
    (s.register w n).connected = Function.update s.connected n true := by
  obtain ⟨dominant, r, hides, he, _⟩ := register_eq (w := w) s n
  rw [he, record]

theorem register_searched (s : ReplicationSearch N) (n : N) : Searched s (s.register w n) := by
  obtain ⟨dominant, r, hides, he, hr⟩ := register_eq (w := w) s n
  rw [he]
  refine ⟨rfl, rfl, rfl, rfl, fun m hm => ?_, ?_, fun m hm => ?_⟩
  · simp only [record, Function.update_apply]
    split
    · rfl
    · exact hm
  · rcases hr with ⟨_, _, hr, _⟩ | ⟨_, hr, _⟩
    · simp only [record, hr, Repository.addObject, ↓reduceIte, Dict.size_set]
      split
      · exact Nat.le_refl _
      · exact Nat.le_succ _
    · simp only [record, hr, Nat.le_refl]
  · rcases hr with ⟨_, hnone, hr, _⟩ | ⟨_, hr, _⟩
    · have hne : m ≠ n := fun he => hm (he ▸ hnone)
      simp only [record, hr, Repository.getId, Repository.addObject, if_true, Dict.getD,
        Dict.get?_set_ne _ hne]
    · simp only [record, hr]

theorem replicationSearch_searched (nodes : Branches N) (s : ReplicationSearch N) :
    Searched s (s.replicationSearch w nodes) := by
  induction nodes generalizing s with
  | nil => exact .refl s
  | cons node below beside ihbelow ihbeside =>
    rw [replicationSearch]
    split
    · exact ihbeside s
    · have hreg := s.register_searched (w := w) node
      simp only
      split
      · exact (hreg.trans (ihbelow _)).trans (ihbeside _)
      · exact hreg.trans (ihbeside _)

theorem connected_replicationSearch (s : ReplicationSearch N) (node : N) (below : Branches N) :
    (s.replicationSearch w (.cons node below .nil)).connected node = true := by
  rw [replicationSearch, replicationSearch]
  split
  · next hc => exact hc
  · have hself : (s.register w node).connected node = true := by
      rw [register_connected]
      exact Function.update_self _ _ _
    simp only
    split
    · exact (replicationSearch_searched below _).connected node hself
    · exact hself

/-- A node that is new gets an id, if the ids do not run out with it. -/
theorem Found.register (h : Found w old s) (hnew : s.connected n = false)
    (halive : s.freed n = false)
    (hroom : ((s.register w n).repository.objectToId.size : Int) ≤ maxId) :
    Found w old (s.register w n) := by
  obtain ⟨dominant, r, hides, he, hr⟩ := register_eq (w := w) s n
  rw [he] at hroom ⊢
  rcases hr with ⟨hs, hnone, hr, hhides⟩ | ⟨hs, hr, hhides⟩
  · have hn := (getId_eq_neg_one_iff h.coherent).1 hnone
    have hmem (m : N) : m ∈ r.objectToId ↔ m = n ∨ m ∈ s.repository.objectToId := by
      rw [hr]
      exact Dict.mem_set _
    have hsize : r.objectToId.size = s.repository.objectToId.size + 1 := by
      rw [hr]
      exact (Dict.size_set _).trans (if_neg hn)
    have hlast : (r.objectToId.size : Int) ≤ maxId := hroom
    apply h.record hnew halive
    · rw [hr]
      exact h.coherent.addObject ⟨hn, by omega⟩
    · exact fun m hm => (hmem m).2 (.inr hm)
    · exact fun m hm => (hmem m).1 hm
    · exact fun _ => (hmem n).2 (.inl rfl)
    · exact fun _ _ => hhides
  · rw [hr]
    apply h.record hnew halive h.coherent (fun _ hm => hm) (fun _ hm => .inr hm)
    · intro hserver
      by_contra hn
      exact hs hserver ((getId_eq_neg_one_iff h.coherent).2 hn)
    · intro hserver hfresh
      have hn : n ∈ s.repository.objectToId := by
        by_contra hn
        exact hs hserver ((getId_eq_neg_one_iff h.coherent).2 hn)
      rcases h.unknown n hn with ho | hc
      · exact absurd ho hfresh
      · exact absurd (hnew.symm.trans hc) Bool.false_ne_true

theorem Found.replicationSearch {nodes : Branches N} (h : Found w old s)
    (hnodes : ∀ n ∈ nodes.nodes, s.freed n = false)
    (hroom : ((s.replicationSearch w nodes).repository.objectToId.size : Int) ≤ maxId) :
    Found w old (s.replicationSearch w nodes) := by
  induction nodes generalizing s with
  | nil => exact h
  | cons node below beside ihbelow ihbeside =>
    have hnode := hnodes node (nodes_cons.2 (.inl rfl))
    -- what has been searched so far has freed nothing
    have hbelow (t : ReplicationSearch N) (ht : Searched s t) (n : N) (hn : n ∈ below.nodes) :
        t.freed n = false := ht.freed ▸ hnodes n (nodes_cons.2 (.inr (.inl hn)))
    have hbeside (t : ReplicationSearch N) (ht : Searched s t) (n : N) (hn : n ∈ beside.nodes) :
        t.freed n = false := ht.freed ▸ hnodes n (nodes_cons.2 (.inr (.inr hn)))
    rw [ReplicationSearch.replicationSearch] at hroom ⊢
    cases hc : s.connected node with
    | true =>
      rw [hc, if_pos rfl] at hroom
      exact ihbeside h (hbeside s (.refl s)) hroom
    | false =>
      rw [hc, if_neg Bool.false_ne_true] at hroom
      rw [if_neg Bool.false_ne_true]
      have hreg := s.register_searched (w := w) node
      simp only at hroom ⊢
      split at hroom
      · next hready =>
        have hdeep := replicationSearch_searched (w := w) below (s.register w node)
        have hrest := replicationSearch_searched (w := w) beside
          ((s.register w node).replicationSearch w below)
        have hsize := hrest.size
        have hfirst := hdeep.size
        rw [if_pos hready]
        apply ihbeside _ (hbeside _ (hreg.trans hdeep)) hroom
        apply ihbelow _ (hbelow _ hreg) (by omega)
        exact h.register hc hnode (by omega)
      · next hready =>
        have hsize := (replicationSearch_searched (w := w) beside (s.register w node)).size
        rw [if_neg hready]
        apply ihbeside _ (hbeside _ hreg) hroom
        exact h.register hc hnode (by omega)

/-- The nodes that a task is going to bring into the tree. -/
def TreeTask.entering : TreeTask N → List N
  | .enterTree _ nodes => nodes.nodes
  | .propagateReady _ => []
  | .ready _ _ => []

/-- What has still to be done: nodes are below such as have been found, and only what has been found
becomes ready, with all that is below it. -/
def Announced (C : N → Prop) : List (TreeTask N) → Prop
  | [] => True
  | .enterTree parent nodes :: tasks => C parent ∧ Announced (fun n => C n ∨ n ∈ nodes.nodes) tasks
  | .propagateReady nodes :: tasks => (∀ n ∈ nodes.nodes, C n) ∧ Announced C tasks
  | .ready node below :: tasks => C node ∧ (∀ n ∈ below.nodes, C n) ∧ Announced C tasks

omit [DecidableEq N] in
theorem Announced.mono {tasks : List (TreeTask N)} (h : Announced C tasks)
    (hC : ∀ n, C n → D n) : Announced D tasks := by
  induction tasks generalizing C D with
  | nil => trivial
  | cons task tasks ih =>
    cases task with
    | enterTree parent nodes =>
      exact ⟨hC parent h.1, ih h.2 (fun n hn => hn.imp_left (hC n))⟩
    | propagateReady nodes => exact ⟨fun n hn => hC n (h.1 n hn), ih h.2 hC⟩
    | ready node below => exact ⟨hC node h.1, fun n hn => hC n (h.2.1 n hn), ih h.2.2 hC⟩

variable (w) in
/-- Every node in the tree has been found, and every node to come will be. -/
structure Sound (old : N → Prop) (s : ReplicationSearch N) : Prop extends Found w old s where
  inside : ∀ n, s.inside n = true → s.connected n = true
  entering : ∀ n ∈ s.agenda.flatMap TreeTask.entering, s.freed n = false
  announced : Announced (fun n => s.connected n = true) s.agenda

theorem Found.moved (h : Found w old s) (inside : N → Bool) (agenda : List (TreeTask N)) :
    Found w old { s with
      inside := inside
      agenda := agenda } :=
  ⟨h.catalogued, h.coherent, h.unknown, h.unready, h.left, h.entered, h.exited, h.entersOnce,
    h.exitsOnce, h.called, h.hidden, h.calls, h.waits⟩

theorem Sound.addChild (h : Sound w old s) : Sound w old (s.addChild parent node below) := by
  rw [ReplicationSearch.addChild]
  split
  · next hok =>
    simp only [Bool.and_eq_true, List.all_eq_true, Bool.not_eq_true'] at hok
    refine ⟨h.toFound.moved _ _, h.inside, ?_, h.inside parent hok.1.1, ?_⟩
    · intro n hn
      simp only [List.flatMap_cons, TreeTask.entering, List.nil_append, List.mem_append] at hn
      rcases hn with hn | hn
      · exact hok.2 n hn
      · exact h.entering n hn
    · exact ⟨fun n hn => .inr hn, h.announced.mono fun n hn => .inl hn⟩
  · exact h

theorem Sound.removeChild (h : Sound w old s) : Sound w old (s.removeChild mp branch) := by
  rw [ReplicationSearch.removeChild]
  split
  · refine ⟨h.toFound.moved _ _, fun n hn => ?_, h.entering, h.announced⟩
    simp only [Bool.and_eq_true] at hn
    exact h.inside n hn.1
  · exact h

theorem emitReady_eq (s : ReplicationSearch N) (n : N) :
    s.emitReady n = { s with
      isNodeReady := (s.emitReady n).isNodeReady
      setVisibility := (s.emitReady n).setVisibility
      visibleOnReady := (s.emitReady n).visibleOnReady } := by
  rw [emitReady]
  split
  · rfl
  · simp only
    split
    · rfl
    · rfl

theorem isNodeReady_emitReady (s : ReplicationSearch N) (node n : N) :
    (s.emitReady node).isNodeReady n = (s.isNodeReady n || decide (n = node)) := by
  rw [emitReady]
  by_cases hready : s.isNodeReady node = true
  · rw [if_pos hready]
    by_cases he : n = node
    · rw [he, hready, Bool.true_or]
    · simp [he]
  · have hupdate : Function.update s.isNodeReady node true n =
        (s.isNodeReady n || decide (n = node)) := by
      rw [Function.update_apply]
      by_cases he : n = node
      · simp [he]
      · simp [he]
    rw [if_neg hready]
    simp only
    split
    · exact hupdate
    · exact hupdate

theorem visibilityCalls_emitReady (s : ReplicationSearch N) (node n : N) :
    (s.emitReady node).visibilityCalls n = s.visibilityCalls n ++
        (if s.isNodeReady node = false ∧ node ∈ s.visibleOnReady ∧ node = n then [true] else []) ∧
      (s.emitReady node).visibleOnReady =
        if s.isNodeReady node = false ∧ node ∈ s.visibleOnReady then
          s.visibleOnReady.filter (fun m => m ≠ node)
        else s.visibleOnReady := by
  rw [emitReady]
  cases s.isNodeReady node with
  | true => simp
  | false =>
    by_cases hwaits : node ∈ s.visibleOnReady
    · simp only [Bool.false_eq_true, ↓reduceIte, hwaits, true_and]
      exact ⟨s.visibilityCalls_append node true, trivial⟩
    · simp [hwaits, visibilityCalls]

theorem Found.emitReady (h : Found w old s) (hc : s.connected node = true) :
    Found w old (s.emitReady node) := by
  have hcalls := s.visibilityCalls_emitReady node
  have hready := s.isNodeReady_emitReady node
  have hframe := s.emitReady_eq node
  have hsame : (s.emitReady node).connected = s.connected ∧
      (s.emitReady node).freed = s.freed := by rw [hframe]; exact ⟨rfl, rfl⟩
  have hother {n : N} (he : node ≠ n) : (s.emitReady node).visibilityCalls n =
      s.visibilityCalls n ∧ (s.emitReady node).dueCalls w n = s.dueCalls w n := by
    rw [(hcalls n).1, if_neg (fun hb => he hb.2.2), List.append_nil, dueCalls, hready,
      decide_eq_false (Ne.symm he), Bool.or_false]
    exact ⟨rfl, rfl⟩
  constructor
  · rw [hframe]
    exact h.catalogued
  · rw [hframe]
    exact h.coherent
  · rw [hframe]
    exact h.unknown
  · intro n hn
    rw [hready, Bool.or_eq_true, decide_eq_true_eq] at hn
    rw [hsame.1, hsame.2]
    rcases hn with hn | hn
    · exact h.unready n hn
    · exact .inr (.inl (hn ▸ hc))
  · rw [hframe]
    exact h.left
  · rw [hframe]
    exact h.entered
  · rw [hframe]
    exact h.exited
  · rw [hframe]
    exact h.entersOnce
  · rw [hframe]
    exact h.exitsOnce
  · intro n hn
    rw [hsame.1, hsame.2]
    by_cases he : node = n
    · exact .inl (he ▸ hc)
    · rw [(hother he).1] at hn
      exact h.called n hn
  · intro n hn
    have hold : n ∈ s.visibleOnReady ∧ ¬ (s.isNodeReady node = false ∧ node ∈ s.visibleOnReady ∧
        node = n) := by
      rw [(hcalls n).2] at hn
      split at hn
      · rw [List.mem_filter, decide_eq_true_iff] at hn
        exact ⟨hn.1, fun hb => hn.2 hb.2.2.symm⟩
      · next hnot => exact ⟨hn, fun hb => hnot ⟨hb.1, hb.2.1⟩⟩
    rw [(hcalls n).1, if_neg hold.2, List.append_nil]
    exact h.hidden n hold.1
  · intro hs n hn hfresh
    rw [hsame.1] at hn
    by_cases he : node = n
    · subst he
      have hbefore := h.calls hs node hn hfresh
      have hwaits := h.waits hs node hn hfresh
      rw [(hcalls node).1, hbefore, dueCalls, dueCalls, hready, decide_eq_true rfl, Bool.or_true]
      rw [dueCalls] at hbefore hwaits
      cases hscene : w.replicatesScene node with
      | false =>
        have hnot : node ∉ s.visibleOnReady := by
          intro hmem
          rw [h.hidden node hmem, hscene] at hbefore
          cases hbefore
        simp [hnot]
      | true =>
        cases hwas : s.isNodeReady node with
        | true => simp
        | false =>
          rw [hscene, hwas] at hwaits
          simp [hwaits rfl]
    · rw [(hother he).1, (hother he).2]
      exact h.calls hs n hn hfresh
  · intro hs n hn hfresh hdue
    rw [hsame.1] at hn
    have he : node ≠ n := by
      intro he
      rw [dueCalls, hready, decide_eq_true he.symm, Bool.or_true] at hdue
      split at hdue
      · cases hdue
      · cases hdue
    rw [(hother he).2] at hdue
    have hold := h.waits hs n hn hfresh hdue
    rw [(hcalls n).2]
    split
    · exact List.mem_filter.2 ⟨hold, decide_eq_true (Ne.symm he)⟩
    · exact hold

theorem childEnteredTree_searched (s : ReplicationSearch N) (parent node : N)
    (below : Branches N) : Searched { s with inside := Function.update s.inside node true }
      (s.childEnteredTree w parent node below) := by
  rw [childEnteredTree]
  simp only
  split
  · exact replicationSearch_searched _ _
  · exact .refl _

theorem Sound.proceed (h : Sound w old s)
    (hroom : ((s.proceed w).repository.objectToId.size : Int) ≤ maxId) :
    Sound w old (s.proceed w) := by
  rw [ReplicationSearch.proceed] at hroom ⊢
  have hentering := h.entering
  have hannounced := h.announced
  split
  · exact h
  · next heq =>
    rw [heq] at hentering hannounced
    refine ⟨h.toFound.moved _ _, h.inside, hentering, hannounced.2.mono fun n hn => ?_⟩
    exact hn.resolve_right List.not_mem_nil
  · next parent node below beside agenda heq =>
    rw [heq] at hentering hannounced
    have hnode (n : N) (hn : n ∈ (Branches.cons node below beside).nodes) :
        s.freed n = false := hentering n (List.mem_append_left _ hn)
    have hs := s.childEnteredTree_searched (w := w) parent node below
    -- the parent has been found, so that it tells of the node
    have hself : (s.childEnteredTree w parent node below).connected node = true := by
      rw [childEnteredTree, if_pos hannounced.1]
      exact connected_replicationSearch _ node below
    have hlast : ((s.childEnteredTree w parent node below).repository.objectToId.size : Int) ≤
        maxId := by
      rw [heq] at hroom
      exact hroom
    have hfound : Found w old (s.childEnteredTree w parent node below) := by
      rw [childEnteredTree, if_pos hannounced.1] at hlast ⊢
      apply (h.toFound.moved _ s.agenda).replicationSearch _ hlast
      intro n hn
      apply hnode n
      rw [nodes_cons] at hn ⊢
      exact hn.imp_right fun hb => .inl (hb.resolve_right List.not_mem_nil)
    refine ⟨hfound.moved _ _, fun n hn => ?_, fun n hn => ?_, hself, ?_⟩
    · rw [hs.inside] at hn
      by_cases he : n = node
      · exact he ▸ hself
      · exact hs.connected n (h.inside n ((Function.update_of_ne he true s.inside).symm.trans hn))
    · simp only [hs.freed]
      simp only [List.flatMap_cons, TreeTask.entering, List.mem_append] at hn
      rcases hn with hn | hn | hn
      · exact hnode n (nodes_cons.2 (.inr (.inl hn)))
      · exact hnode n (nodes_cons.2 (.inr (.inr hn)))
      · exact hentering n (List.mem_append_right _ hn)
    · refine ⟨.inl (hs.connected parent hannounced.1), hannounced.2.mono fun n hn => ?_⟩
      rw [nodes_cons] at hn
      rcases hn with hn | hn | hn | hn
      · exact .inl (.inl (hs.connected n hn))
      · exact .inl (.inl (hn ▸ hself))
      · exact .inl (.inr hn)
      · exact .inr hn
  · next heq =>
    rw [heq] at hentering hannounced
    exact ⟨h.toFound.moved _ _, h.inside, hentering, hannounced.2⟩
  · next node below beside agenda heq =>
    rw [heq] at hentering hannounced
    have hall (n : N) (hn : n = node ∨ n ∈ below.nodes ∨ n ∈ beside.nodes) :
        s.connected n = true := hannounced.1 n (nodes_cons.2 hn)
    exact ⟨h.toFound.moved _ _, h.inside, hentering, fun n hn => hall n (.inr (.inl hn)),
      hall node (.inl rfl), fun n hn => hall n (.inr (.inl hn)),
      fun n hn => hall n (.inr (.inr hn)), hannounced.2⟩
  · next node below agenda heq =>
    rw [heq] at hentering hannounced
    have hframe := s.emitReady_eq node
    refine ⟨(h.toFound.emitReady hannounced.1).moved _ _, ?_, ?_, ?_⟩
    · rw [hframe]
      exact h.inside
    · rw [hframe]
      exact hentering
    · rw [hframe]
      exact hannounced.2.2

/-- A node that is gone, with what is forgotten about it. -/
def forget (w : SearchWorld N) (s : ReplicationSearch N) (n : N) (dominant : List N)
    (r : Repository N) : ReplicationSearch N :=
  { s with
    dominantReplication := dominant
    exited := s.exited ++ if s.connected n && w.baseScriptReplication n then [n] else []
    repository := r
    connected := Function.update s.connected n false
    freed := Function.update s.freed n true
    inside := Function.update s.inside n false }

theorem free_eq (s : ReplicationSearch N) (mp n : N) :
    s.free w mp n = s ∨ s.agenda = [] ∧ s.freed n = false ∧ ∃ dominant r,
      s.free w mp n = forget w s n dominant r ∧
        (s.connected n = true ∧ s.repository.getId n ≠ -1 ∧ r = s.repository.removeObject n ∨
          (s.connected n = true → s.repository.getId n = -1) ∧ r = s.repository) := by
  rw [free]
  split
  · next hok =>
    simp only [Bool.and_eq_true, List.isEmpty_iff, Bool.not_eq_true'] at hok
    refine .inr ⟨hok.1.1, hok.2, ?_⟩
    cases hc : s.connected n with
    | false =>
      refine ⟨s.dominantReplication, s.repository, ?_,
        .inr ⟨fun hn => absurd hn Bool.false_ne_true, rfl⟩⟩
      simp [forget, hc]
    | true =>
      refine ⟨s.dominantReplication.filter (fun m => m ≠ n), ?_⟩
      by_cases hid : s.repository.getId n = -1
      · refine ⟨s.repository, ?_, .inr ⟨fun _ => hid, rfl⟩⟩
        cases hb : w.baseScriptReplication n with
        | false => simp [forget, nodeTreeExiting, hc, hb, hid]
        | true => simp [forget, nodeTreeExiting, hc, hb, hid]
      · refine ⟨s.repository.removeObject n, ?_, .inl ⟨rfl, hid, rfl⟩⟩
        cases hb : w.baseScriptReplication n with
        | false => simp [forget, nodeTreeExiting, hc, hb, hid]
        | true => simp [forget, nodeTreeExiting, hc, hb, hid]
  · exact .inl rfl

theorem Found.forget (h : Found w old s) (halive : s.freed n = false) (hr : r.Coherent)
    (hsub : ∀ m ∈ r.objectToId, m ∈ s.repository.objectToId)
    (hkept : ∀ m ≠ n, m ∈ s.repository.objectToId → m ∈ r.objectToId)
    (hgone : n ∈ r.objectToId → old n) : Found w old (forget w s n dominant r) := by
  have hne {f : N → Bool} {b : Bool} {m : N} (hm : m ≠ n) : Function.update f n b m = f m :=
    Function.update_of_ne hm _ _
  have hself {f : N → Bool} {b : Bool} : Function.update f n b n = b := Function.update_self _ _ _
  have hconnected (m : N) (hm : Function.update s.connected n false m = true) :
      m ≠ n ∧ s.connected m = true := by
    have he : m ≠ n := by
      intro he
      rw [he, hself] at hm
      cases hm
    exact ⟨he, (hne he).symm.trans hm⟩
  have hstays : n ∉ s.exited := by
    intro hx
    rw [(h.exited n hx).1] at halive
    cases halive
  refine ⟨fun hs m hm => ?_, hr, fun m hm => ?_, fun m hm => ?_, fun m hm => ?_, fun m => ?_,
    fun m hm => ?_, h.entersOnce, ?_, fun m hm => ?_, h.hidden,
    fun hs m hm => h.calls hs m (hconnected m hm).2,
    fun hs m hm => h.waits hs m (hconnected m hm).2⟩
  · obtain ⟨he, hc⟩ := hconnected m hm
    exact hkept m he (h.catalogued hs m hc)
  · by_cases he : m = n
    · rw [he] at hm ⊢
      exact .inl (hgone hm)
    · exact (h.unknown m (hsub m hm)).imp_right fun hc => (hne he).trans hc
  · by_cases he : m = n
    · exact .inr (.inr (he ▸ hself))
    · exact (h.unready m hm).imp_right fun hc => hc.imp (fun hc => (hne he).trans hc)
        fun hf => (hne he).trans hf
  · by_cases he : m = n
    · exact he ▸ hself
    · exact (hne he).trans (h.left m ((hne he).symm.trans hm))
  · refine (h.entered m).trans (and_congr_right fun hbase => ?_)
    simp only [ReplicationSearch.forget, List.mem_append]
    by_cases he : m = n
    · rw [he] at hbase ⊢
      simp only [hself, hbase, Bool.and_true, Bool.false_eq_true, false_or]
      rw [or_comm]
      cases s.connected n with
      | false => simp
      | true => simp
    · rw [hne he, ← or_assoc]
      refine (or_iff_left fun hm => ?_).symm
      split at hm
      · exact he (List.mem_singleton.1 hm)
      · cases hm
  · simp only [ReplicationSearch.forget, List.mem_append] at hm ⊢
    rcases hm with hm | hm
    · have he : m ≠ n := fun he => hstays (he ▸ hm)
      rw [hne he]
      exact h.exited m hm
    · split at hm
      · next hc =>
        rw [Bool.and_eq_true] at hc
        rw [List.mem_singleton.1 hm]
        exact ⟨hself, hc.2⟩
      · cases hm
  · simp only [ReplicationSearch.forget]
    split
    · rw [List.nodup_append]
      refine ⟨h.exitsOnce, List.nodup_singleton n, fun a ha b hb hab => ?_⟩
      rw [List.mem_singleton] at hb
      rw [hab, hb] at ha
      exact hstays ha
    · rw [List.append_nil]
      exact h.exitsOnce
  · by_cases he : m = n
    · exact .inr (he ▸ hself)
    · refine (h.called m hm).imp (fun hc => ?_) (fun hf => ?_)
      · exact (hne he).trans hc
      · exact (hne he).trans hf

theorem Sound.free (h : Sound w old s) : Sound w old (s.free w mp node) := by
  rcases s.free_eq (w := w) mp node with he | ⟨hagenda, halive, dominant, r, he, hr⟩
  · rw [he]
    exact h
  · have hfound : Found w old (forget w s node dominant r) := by
      rcases hr with ⟨_, hid, hr⟩ | ⟨hid, hr⟩
      · have hn : node ∈ s.repository.objectToId := by
          by_contra hn
          exact hid ((getId_eq_neg_one_iff h.coherent).2 hn)
        have hmem (m : N) : m ∈ r.objectToId ↔ m ≠ node ∧ m ∈ s.repository.objectToId := by
          rw [hr]
          exact Dict.mem_erase _
        rw [hr] at hmem ⊢
        exact h.toFound.forget halive (h.coherent.removeObject hn) (fun m hm => ((hmem m).1 hm).2)
          (fun m hne hm => (hmem m).2 ⟨hne, hm⟩) fun hself => absurd rfl ((hmem node).1 hself).1
      · rw [hr]
        apply h.toFound.forget halive h.coherent (fun _ hm => hm) (fun _ _ hm => hm)
        intro hn
        apply (h.unknown node hn).resolve_right
        exact fun hc => (getId_eq_neg_one_iff h.coherent).1 (hid hc) hn
    rw [he]
    refine ⟨hfound, fun n hn => ?_, fun n hn => ?_, ?_⟩
    · have hn' : Function.update s.inside node false n = true := hn
      have hne : n ≠ node := by
        intro hne
        rw [hne, Function.update_self] at hn'
        cases hn'
      have hin : s.inside n = true := (Function.update_of_ne hne false s.inside).symm.trans hn'
      exact (Function.update_of_ne hne false s.connected).trans (h.inside n hin)
    · have hnone : n ∈ s.agenda.flatMap TreeTask.entering := hn
      rw [hagenda] at hnone
      cases hnone
    · have hnone : Announced (fun n => (ReplicationSearch.forget w s node dominant r).connected n =
        true) ([] : List (TreeTask N)) := trivial
      rw [← hagenda] at hnone
      exact hnone

theorem Sound.step (h : Sound w old s) (event : TreeEvent N)
    (hroom : ((s.step w mp event).repository.objectToId.size : Int) ≤ maxId) :
    Sound w old (s.step w mp event) := by
  cases event with
  | addChild parent node below => exact h.addChild
  | proceed => exact h.proceed hroom
  | removeChild branch => exact h.removeChild
  | free node => exact h.free

/-- What a later state has of an earlier one: a node keeps its id until it is freed. -/
structure Later (s s' : ReplicationSearch N) : Prop where
  freed : ∀ n, s.freed n = true → s'.freed n = true
  ids : ∀ n, s.repository.getId n ≠ -1 → s'.freed n = false →
    s'.repository.getId n = s.repository.getId n

theorem Later.refl (s : ReplicationSearch N) : Later s s :=
  ⟨fun _ h => h, fun _ _ _ => rfl⟩

theorem Later.trans (h : Later s t) (h' : Later t s') : Later s s' := by
  refine ⟨fun n hn => h'.freed n (h.freed n hn), fun n hn hf => ?_⟩
  have ht : t.freed n = false := by
    rw [← Bool.not_eq_true] at hf ⊢
    exact fun hb => hf (h'.freed n hb)
  have hid := h.ids n hn ht
  rw [← hid]
  apply h'.ids n _ hf
  rw [hid]
  exact hn

/-- The ids that are in use have not run out. -/
def HasRoom (s : ReplicationSearch N) : Prop := (s.repository.objectToId.size : Int) ≤ maxId

theorem sound_run {events : List (TreeEvent N)} (h : Sound w old s)
    (hroom : Runs.Always (step w mp) HasRoom s events) :
    Sound w old (Runs.run (step w mp) s events) := by
  induction events generalizing s with
  | nil => exact h
  | cons event events ih => exact ih (h.step event hroom.2.head) hroom.2

end ReplicationSearch

end Godaemon
