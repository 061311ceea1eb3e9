import Godaemon.Lib.Dict
import Godaemon.Lib.Forest
import Godaemon.Lib.Runs

namespace Godaemon
set_option autoImplicit true

/-- The scripts of the roots of zones, on the server and on a client. -/
inductive ZoneScript where
  | zone
  | clientZone
deriving DecidableEq

/-- What is fixed about the nodes that the ZoneService of a peer is asked about. -/
structure ZoneNodesWorld (N : Type) where
  /-- The root of the running tree. -/
  root : N
  script : N → Option ZoneScript
  isServer : Bool

/-- The nodes of a running game, with what the ZoneService has cached about them. -/
structure ZoneNodes (N : Type) where
  nodes : Forest N
  zoneNodeCache : Dict N (Option N)
  /-- The nodes whose `tree_exited` is connected, once for each connection. -/
  treeExited : List N
  /-- How many times `tree_exited` is still to be emitted for a node that has left the tree. -/
  leaving : N → Nat

inductive ZoneNodesEvent (N : Type) where
  | addChild (parent node : N)
  | removeChild (node : N)
  | emitTreeExited (node : N)
  | query (node : N)

namespace ZoneNodes

variable {N : Type} [DecidableEq N] (w : ZoneNodesWorld N)

def start : ZoneNodes N := ⟨.discrete, .empty, [], fun _ => 0⟩

def isInsideTree (s : ZoneNodes N) (node : N) : Bool := w.root ∈ s.nodes.path node

/-- Climb to the closest zone, or else to the root of the tree. -/
def climb (script : ZoneScript) (nodes : Forest N) (node : N) : Option N :=
  (nodes.first (fun zone => w.script zone = some script || zone = w.root) node).filter
    (fun zone => w.script zone = some script)

def getZone (script : ZoneScript) (s : ZoneNodes N) (node : N) : Option N × ZoneNodes N :=
  match s.zoneNodeCache.get? node with
  | some zone => (zone, s)
  | none =>
    if !s.isInsideTree w node then (none, s)
    else
      let zone := climb w script s.nodes node
      (zone, { s with
        treeExited := s.treeExited ++ [node]
        zoneNodeCache := s.zoneNodeCache.set node zone })

def getNodeZone (s : ZoneNodes N) (node : N) : Option N × ZoneNodes N := s.getZone w .zone node

def getNodeZoneCl (s : ZoneNodes N) (node : N) : Option N × ZoneNodes N :=
  s.getZone w .clientZone node

/-- The script of the zones on this side. -/
def ownScript : ZoneScript := if w.isServer then .zone else .clientZone

/-- Each of the two queries is only for its side. -/
def query (s : ZoneNodes N) (node : N) : Option N × ZoneNodes N :=
  if w.isServer then s.getNodeZone w node else s.getNodeZoneCl w node

def addChild (s : ZoneNodes N) (parent node : N) : ZoneNodes N :=
  if h : node ∉ s.nodes.path parent then
    if s.nodes.parent node = none ∧ node ≠ w.root then
      { s with nodes := s.nodes.move node parent h }
    else s
  else s

/-- All nodes of the branch that were in the tree will say that they have left. -/
def removeChild (s : ZoneNodes N) (node : N) : ZoneNodes N :=
  if s.nodes.parent node = none then s
  else { s with
    nodes := s.nodes.detach node
    leaving := fun n =>
      if s.isInsideTree w n ∧ node ∈ s.nodes.path n then s.leaving n + 1 else s.leaving n }

/-- Every one-shot connection of the signal is called, and gone. -/
def emitTreeExited (s : ZoneNodes N) (node : N) : ZoneNodes N :=
  if s.leaving node = 0 then s
  else { s with
    zoneNodeCache := (s.treeExited.filter (fun n => n = node)).foldl Dict.erase s.zoneNodeCache
    treeExited := s.treeExited.filter (fun n => n ≠ node)
    leaving := fun n => if n = node then s.leaving n - 1 else s.leaving n }

def step (s : ZoneNodes N) : ZoneNodesEvent N → ZoneNodes N
  | .addChild parent node => s.addChild w parent node
  | .removeChild node => s.removeChild w node
  | .emitTreeExited node => s.emitTreeExited node
  | .query node => (s.query w node).2

/-- A cached answer is the current one until its node has left, and each one has its connection. -/
structure Sound (s : ZoneNodes N) : Prop where
  root : s.nodes.parent w.root = none
  current : ∀ n zone, s.zoneNodeCache.get? n = some zone → s.leaving n = 0 →
    s.isInsideTree w n = true ∧ zone = climb w (ownScript w) s.nodes n
  connected : ∀ n, n ∈ s.treeExited ↔ n ∈ s.zoneNodeCache
  once : s.treeExited.Nodup

variable {w} {s : ZoneNodes N}

theorem isInsideTree_iff : s.isInsideTree w n = true ↔ w.root ∈ s.nodes.path n := decide_eq_true_iff

theorem query_eq (s : ZoneNodes N) (node : N) :
    s.query w node = s.getZone w (ownScript w) node := by
  rw [query, getNodeZone, getNodeZoneCl, ownScript]
  split
  · rfl
  · rfl

theorem getZone_of_cached (h : s.zoneNodeCache.get? n = some zone) :
    s.getZone w script n = (zone, s) := by
  simp only [getZone, h]

theorem getZone_of_outside (h : s.zoneNodeCache.get? n = none)
    (hout : s.isInsideTree w n = false) : s.getZone w script n = (none, s) := by
  simp only [getZone, h, hout, Bool.not_false, if_true]

theorem getZone_of_inside (h : s.zoneNodeCache.get? n = none) (hin : s.isInsideTree w n = true) :
    s.getZone w script n = (climb w script s.nodes n, { s with
      treeExited := s.treeExited ++ [n]
      zoneNodeCache := s.zoneNodeCache.set n (climb w script s.nodes n) }) := by
  simp only [getZone, h, hin, Bool.not_true, Bool.false_eq_true, if_false]

theorem climb_eq_some_iff (h : s.isInsideTree w n = true) (hroot : s.nodes.parent w.root = none) :
    climb w script s.nodes n = some zone ↔ w.script zone = some script ∧ zone ∈ s.nodes.path n ∧
      ∀ other ∈ s.nodes.path n, w.script other = some script → other ∈ s.nodes.path zone := by
  rw [isInsideTree_iff] at h
  have htop (m : N) (hm : m ∈ s.nodes.path n) : w.root ∈ s.nodes.path m := by
    rcases Forest.mem_path_total hm h with hr | hr
    · rw [Forest.path_of_root hroot, List.mem_singleton] at hr
      rw [hr]
      exact Forest.self_mem_path w.root
    · exact hr
  rw [climb, Option.filter_eq_some_iff, Forest.first_eq_some_iff]
  simp only [Bool.or_eq_true, decide_eq_true_eq]
  constructor
  · intro hz
    exact ⟨hz.2, hz.1.2.1, fun other ho hs => hz.1.2.2 other ho (.inl hs)⟩
  · intro hz
    refine ⟨⟨.inl hz.1, hz.2.1, ?_⟩, hz.1⟩
    intro other ho hs
    rcases hs with hs | hs
    · exact hz.2.2 other ho hs
    · rw [hs]
      exact htop zone hz.2.1

variable (w) (script) in
theorem congr_path {t : ZoneNodes N} (h : t.nodes.path n = s.nodes.path n) :
    t.isInsideTree w n = s.isInsideTree w n ∧
      climb w script t.nodes n = climb w script s.nodes n := by
  rw [isInsideTree, isInsideTree, climb, climb, Forest.first, Forest.first, h]
  exact ⟨rfl, rfl⟩

theorem sound_start (w : ZoneNodesWorld N) : (start : ZoneNodes N).Sound w :=
  ⟨rfl, fun _ _ h => (by cases h), fun _ => Iff.rfl, List.nodup_nil⟩

theorem Sound.moved {t : ZoneNodes N} (h : s.Sound w) (hroot : t.nodes.parent w.root = none)
    (hcache : t.zoneNodeCache = s.zoneNodeCache) (hconnected : t.treeExited = s.treeExited)
    (hpath : ∀ n, t.leaving n = 0 → s.leaving n = 0 ∧
      (s.isInsideTree w n = true → t.nodes.path n = s.nodes.path n)) : t.Sound w := by
  constructor
  · exact hroot
  · intro n zone hn hl
    rw [hcache] at hn
    obtain ⟨hleft, hstays⟩ := hpath n hl
    obtain ⟨hin, hzone⟩ := h.current n zone hn hleft
    obtain ⟨hin', hclimb⟩ := congr_path w (ownScript w) (hstays hin)
    rw [hin', hclimb]
    exact ⟨hin, hzone⟩
  · rw [hcache, hconnected]
    exact h.connected
  · rw [hconnected]
    exact h.once

theorem Sound.addChild (h : s.Sound w) : (s.addChild w parent node).Sound w := by
  rw [ZoneNodes.addChild]
  split
  · next hcycle =>
    split
    · next hloose =>
      apply h.moved
      · exact (Forest.parent_move_of_ne hcycle (fun he => hloose.2 he.symm)).trans h.root
      · rfl
      · rfl
      · intro n hl
        refine ⟨hl, fun hin => Forest.path_move_of_not_mem (h := hcycle) ?_⟩
        intro hn
        rw [isInsideTree_iff] at hin
        rcases Forest.mem_path_total hin hn with hm | hm
        · rw [Forest.path_of_root hloose.1, List.mem_singleton] at hm
          exact hloose.2 hm.symm
        · rw [Forest.path_of_root h.root, List.mem_singleton] at hm
          exact hloose.2 hm
    · exact h
  · exact h

theorem Sound.removeChild (h : s.Sound w) : (s.removeChild w node).Sound w := by
  rw [ZoneNodes.removeChild]
  split
  · exact h
  · apply h.moved
    · by_cases he : w.root = node
      · rw [he]
        exact Forest.parent_detach_self
      · exact (Forest.parent_detach_of_ne he).trans h.root
    · rfl
    · rfl
    · intro n hl
      simp only at hl
      split at hl
      · cases hl
      · next hn =>
        refine ⟨hl, fun hin => Forest.path_detach_of_not_mem ?_⟩
        intro hm
        exact hn ⟨hin, hm⟩

theorem get?_foldl_erase (d : Dict N (Option N)) (ns : List N) :
    (ns.foldl Dict.erase d).get? n = if n ∈ ns then none else d.get? n := by
  induction ns generalizing d with
  | nil => simp
  | cons m ns ih =>
    rw [List.foldl_cons, ih, Dict.get?_erase]
    by_cases hn : n = m
    · simp [hn]
    · simp [hn]

theorem Sound.get?_emit (h : s.Sound w) :
    ((s.treeExited.filter (fun n => n = node)).foldl Dict.erase s.zoneNodeCache).get? m =
      if m = node then none else s.zoneNodeCache.get? m := by
  rw [get?_foldl_erase]
  by_cases hm : m = node
  · rw [if_pos hm]
    split
    · rfl
    · next hno =>
      rw [Dict.get?_eq_none_iff]
      intro hcached
      apply hno
      rw [List.mem_filter]
      exact ⟨(h.connected m).2 hcached, decide_eq_true hm⟩
  · rw [if_neg hm, if_neg]
    intro hin
    rw [List.mem_filter, decide_eq_true_iff] at hin
    exact hm hin.2

theorem Sound.emitTreeExited (h : s.Sound w) : (s.emitTreeExited node).Sound w := by
  rw [ZoneNodes.emitTreeExited]
  split
  · exact h
  · constructor
    · exact h.root
    · intro n zone hn hl
      rw [h.get?_emit] at hn
      simp only at hl
      split at hn
      · cases hn
      · next hne =>
        rw [if_neg hne] at hl
        exact h.current n zone hn hl
    · intro n
      rw [List.mem_filter, h.connected n, Dict.mem_iff_get?, Dict.mem_iff_get?, h.get?_emit]
      by_cases hne : n = node
      · simp [hne]
      · simp [hne]
    · exact h.once.filter _

theorem Sound.query (h : s.Sound w) : (s.query w node).2.Sound w := by
  rw [query_eq]
  cases hc : s.zoneNodeCache.get? node with
  | some zone =>
    rw [getZone_of_cached hc]
    exact h
  | none =>
    cases hin : s.isInsideTree w node with
    | false =>
      rw [getZone_of_outside hc hin]
      exact h
    | true =>
      rw [getZone_of_inside hc hin]
      have hnew := (Dict.get?_eq_none_iff _).1 hc
      constructor
      · exact h.root
      · intro n zone hn hl
        rw [Dict.get?_set] at hn
        split at hn
        · next he =>
          rw [Option.some.injEq] at hn
          rw [he, ← hn]
          exact ⟨hin, rfl⟩
        · exact h.current n zone hn hl
      · intro n
        rw [List.mem_append, List.mem_singleton, Dict.mem_set, h.connected n]
        exact or_comm
      · rw [List.nodup_append]
        refine ⟨h.once, List.nodup_singleton node, ?_⟩
        intro a ha b hb hab
        rw [List.mem_singleton] at hb
        rw [hab, hb] at ha
        exact hnew ((h.connected node).1 ha)

theorem Sound.step (h : s.Sound w) (event : ZoneNodesEvent N) : (s.step w event).Sound w := by
  cases event with
  | addChild parent node => exact h.addChild
  | removeChild node => exact h.removeChild
  | emitTreeExited node => exact h.emitTreeExited
  | query node => exact h.query

theorem sound_run (w : ZoneNodesWorld N) (events : List (ZoneNodesEvent N)) :
    (Runs.run (step w) start events).Sound w :=
  (Runs.always_of_step (fun _ event h => h.step event) (sound_start w) events).last

/-- With a sound cache a query answers what the climb would. -/
theorem Sound.query_fst (h : s.Sound w) (hl : s.leaving n = 0) :
    (s.query w n).1 =
      if s.isInsideTree w n then climb w (ownScript w) s.nodes n else none := by
  rw [query_eq]
  cases hc : s.zoneNodeCache.get? n with
  | some zone =>
    obtain ⟨hin, hzone⟩ := h.current n zone hc hl
    rw [getZone_of_cached hc, if_pos hin, hzone]
  | none =>
    cases hin : s.isInsideTree w n with
    | false =>
      rw [getZone_of_outside hc hin, if_neg Bool.false_ne_true]
    | true => rw [getZone_of_inside hc hin, if_pos rfl]

/-- However the nodes of a game have been hung into the tree, taken out of it and asked about, the
ZoneService names the lowest zone at a node or above it, and none for a node outside of the tree,
except while the node has still to say that it has left. It keeps no answers about nodes that are
gone, and one connection for each that it keeps. -/
theorem query_of_run (w : ZoneNodesWorld N) (events : List (ZoneNodesEvent N)) :
    let s := Runs.run (step w) start events
    (∀ node zone, s.leaving node = 0 → ((s.query w node).1 = some zone ↔
      w.root ∈ s.nodes.path node ∧ w.script zone = some (ownScript w) ∧
        zone ∈ s.nodes.path node ∧ ∀ other ∈ s.nodes.path node,
          w.script other = some (ownScript w) → other ∈ s.nodes.path zone)) ∧
    (∀ node ∈ s.zoneNodeCache, w.root ∈ s.nodes.path node ∨ s.leaving node ≠ 0) ∧
    (∀ node, node ∈ s.treeExited ↔ node ∈ s.zoneNodeCache) ∧ s.treeExited.Nodup := by
  intro s
  have hs : s.Sound w := sound_run w events
  refine ⟨fun node zone h => ?_, fun node hn => ?_, hs.connected, hs.once⟩
  · rw [hs.query_fst h]
    cases hin : s.isInsideTree w node with
    | false =>
      rw [if_neg Bool.false_ne_true]
      apply iff_of_false
      · intro hz
        cases hz
      · intro hz
        rw [isInsideTree_iff.2 hz.1] at hin
        cases hin
    | true =>
      rw [if_pos rfl, climb_eq_some_iff hin hs.root]
      exact (and_iff_right (isInsideTree_iff.1 hin)).symm
  · obtain ⟨zone, hzone⟩ := (Dict.mem_iff_get? _).1 hn
    by_cases h : s.leaving node = 0
    · exact .inl (isInsideTree_iff.1 (hs.current node zone hzone h).1)
    · exact .inr h

/-- Two zones side by side, and a node that goes from one to the other. -/
def twoZones : ZoneNodesWorld Nat where
  root := 0
  script n := if n = 1 ∨ n = 2 then some .zone else none
  isServer := true

def rehung : List (ZoneNodesEvent Nat) :=
  [.addChild 0 1, .addChild 0 2, .addChild 1 3, .query 3, .removeChild 3, .query 3,
    .emitTreeExited 3, .addChild 2 3]

theorem query_rehung : ((Runs.run (step twoZones) start rehung).query twoZones 3).1 = some 2 := by
  have hleft : (Runs.run (step twoZones) start rehung).leaving 3 = 0 := by decide +kernel
  obtain ⟨hanswer, _⟩ := query_of_run twoZones rehung
  apply (hanswer 3 2 hleft).2
  decide +kernel

end ZoneNodes

end Godaemon
