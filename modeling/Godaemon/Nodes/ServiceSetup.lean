import Godaemon.Api.Repository
import Godaemon.Lib.Runs
import Godaemon.Nodes.ServiceChannels

namespace Godaemon
set_option autoImplicit true

/-- A service of a connection. -/
structure ServiceNode where
  script : ServiceScript
  connection : Nat
  index : Nat
deriving DecidableEq

/-- A child of a root, which is a service or a node of the game. -/
inductive RootChild (N : Type) where
  | node (node : N)
  | service (service : ServiceNode)
deriving DecidableEq

/-- What has ids before anything is replicated. -/
inductive RootObject where
  | root
  | service (service : ServiceNode)
deriving DecidableEq

def RootChild.service? : RootChild N → Option ServiceNode
  | .node _ => none
  | .service n => some n

inductive ServiceCall where
  | enterTree
  | ready
  | setup
deriving DecidableEq

/-- A client's or a server's root with its services. The repository, the channels of objects and
the calls that the services have had are those of the present connection. -/
structure ServiceRoot (N : Type) extends MultiplayerRoot where
  connected : Bool
  connections : Nat
  children : List (RootChild N)
  services : List ServiceNode
  serviceCache : Dict ServiceScript ServiceNode
  serviceNameCache : Dict String ServiceNode
  repository : Repository RootObject
  objectChannels : Dict ServiceNode Int
  calls : List (ServiceNode × ServiceCall)

inductive ServiceRootEvent (N : Type) where
  | startConnection (succeeds : Bool)
  | endConnection
  | addChild (node : N)
  | removeChild (node : N)

namespace ServiceRoot

variable {N : Type} [DecidableEq N]

/-- A root that has come into the tree. -/
def start (configuration : MultiplayerConfig) : ServiceRoot N where
  toMultiplayerRoot := MultiplayerRoot.determineServiceChannels ⟨configuration, .empty, 0⟩
  connected := false
  connections := 0
  children := []
  services := []
  serviceCache := .empty
  serviceNameCache := .empty
  repository := .new
  objectChannels := .empty
  calls := []

/-- The override goes when its service leaves the tree. -/
def cleanupServices (s : ServiceRoot N) : ServiceRoot N :=
  { s with
    children := s.services.foldl (fun children service =>
      children.filter (fun child => child ≠ .service service)) s.children
    objectChannels := s.services.foldl Dict.erase s.objectChannels
    services := []
    serviceCache := .empty
    serviceNameCache := .empty
    calls := [] }

/-- One round of the loop that makes the services. -/
def createService (s : ServiceRoot N) (script : ServiceScript) : ServiceRoot N :=
  if script.globalName = "" then s
  else if !script.isServiceBase then s
  else
    let service : ServiceNode := ⟨script, s.connections, s.services.length⟩
    { s with
      services := s.services ++ [service]
      serviceCache := s.serviceCache.set script service
      serviceNameCache := s.serviceNameCache.set script.globalName service
      repository := (s.repository.addObject (.service service)).2 }

/-- What a service does once it is ready. -/
def setup (s : ServiceRoot N) (service : ServiceNode) : ServiceRoot N :=
  let s := { s with calls := s.calls ++ [(service, .setup)] }
  if 0 < service.script.reservedChannels then
    { s with objectChannels :=
      s.objectChannels.set service (s.getServiceChannelStart service.script) }
  else s

/-- While a service enters the tree the rest are added, so that it is ready after them. -/
def addServices : List ServiceNode → ServiceRoot N → ServiceRoot N
  | [], s => s
  | service :: nodes, s =>
    let s : ServiceRoot N := addServices nodes { s with
      children := s.children ++ [.service service]
      calls := s.calls ++ [(service, .enterTree)] }
    let s : ServiceRoot N := { s with calls := s.calls ++ [(service, .ready)] }
    let s := s.setup service
    { s with children :=
      s.children.filter (fun child => child ≠ .service service) ++ [.service service] }

def setupServices (s : ServiceRoot N) : ServiceRoot N :=
  let s := { s with repository := (s.repository.addObject .root).2 }
  let s := s.cleanupServices
  let s := s.configuration.servicesToLoad.foldl createService s
  addServices s.services.reverse s

def startConnection (succeeds : Bool) (s : ServiceRoot N) : ServiceRoot N :=
  if s.connected then s
  else if !succeeds then s
  else
    let s := { s with
      connected := true
      connections := s.connections + 1
      repository := .new
      objectChannels := .empty }
    s.setupServices

def endConnection (s : ServiceRoot N) : ServiceRoot N :=
  if !s.connected then s
  else
    let s := { s with connected := false, repository := .new, objectChannels := .empty }
    s.cleanupServices

def step (s : ServiceRoot N) : ServiceRootEvent N → ServiceRoot N
  | .startConnection succeeds => s.startConnection succeeds
  | .endConnection => s.endConnection
  | .addChild node => { s with children := s.children ++ [.node node] }
  | .removeChild node => { s with children := s.children.filter (fun child => child ≠ .node node) }

def getService (s : ServiceRoot N) (t : ServiceScript) : Option ServiceNode := s.serviceCache.get? t

end ServiceRoot

namespace Repository

variable {N : Type}

/-- The first ids have been given, one after the other. -/
structure Counted (r : Repository N) (count : Nat) : Prop where
  used : ∀ i, i ∈ r.idToObject ↔ 0 ≤ i ∧ i < count
  next : r.currentId = (count - 1 : Nat)

variable {r : Repository N}

theorem counted_new : (new : Repository N).Counted 0 :=
  ⟨fun i => by simp [new], rfl⟩

theorem Counted.allocatedId (h : r.Counted k) (hk : (k : Int) < maxId) : r.allocatedId = k := by
  have hfree : (k : Int) ∉ r.idToObject := by
    rw [h.used]
    omega
  have hstop (fuel : Nat) : freeId r.idToObject fuel k = k := by
    cases fuel with
    | zero => rfl
    | succ fuel => rw [freeId, if_neg hfree]
  rw [Repository.allocatedId, h.next]
  cases k with
  | zero => exact hstop _
  | succ k =>
    have hlast : (k : Int) ∈ r.idToObject := by
      rw [h.used]
      omega
    have hnext : nextId (k : Int) = ((k + 1 : Nat) : Int) := by
      rw [nextId, if_neg (by omega)]
      rfl
    rw [Nat.add_sub_cancel, freeId, if_pos hlast, hnext]
    exact hstop _

variable [DecidableEq N]

theorem Counted.addObject (h : r.Counted k) (hk : (k : Int) < maxId) (n : N) :
    (r.addObject n).2.objectToId = r.objectToId.set n k ∧ (r.addObject n).2.Counted (k + 1) := by
  simp only [Repository.addObject, if_true, h.allocatedId hk]
  refine ⟨trivial, fun i => ?_, rfl⟩
  rw [Dict.mem_set, h.used]
  omega

theorem getId_foldl_addObject {objects : List N} (hnodup : objects.Nodup)
    (hcount : r.Counted k) (hroom : (k + objects.length : Int) ≤ maxId) (n : N) :
    (n ∉ objects → (objects.foldl (fun r n => (r.addObject n).2) r).getId n = r.getId n) ∧
    ∀ i : Nat, objects[i]? = some n →
      (objects.foldl (fun r n => (r.addObject n).2) r).getId n = k + i := by
  induction objects generalizing r k with
  | nil => exact ⟨fun _ => rfl, fun i hi => by cases hi⟩
  | cons m objects ih =>
    obtain ⟨hm, hrest⟩ := List.nodup_cons.1 hnodup
    rw [List.length_cons] at hroom
    obtain ⟨hset, hnext⟩ := hcount.addObject (by omega) m
    obtain ⟨hother, hlater⟩ := ih hrest hnext (by omega)
    have hid (j : N) : (r.addObject m).2.getId j = if j = m then (k : Int) else r.getId j := by
      rw [getId, hset, Dict.getD_set]
      rfl
    rw [List.foldl_cons]
    refine ⟨fun hn => ?_, fun i hi => ?_⟩
    · rw [List.mem_cons, not_or] at hn
      rw [hother hn.2, hid, if_neg hn.1]
    · cases i with
      | zero =>
        rw [List.getElem?_cons_zero, Option.some.injEq] at hi
        rw [← hi] at hother ⊢
        rw [hother hm, hid, if_pos rfl]
        omega
      | succ i =>
        rw [List.getElem?_cons_succ] at hi
        rw [hlater i hi]
        omega

end Repository

namespace ServiceRoot

/-- The services that a connection makes, the first one with the given index. -/
def instances (connection : Nat) : Nat → List ServiceScript → List ServiceNode
  | _, [] => []
  | index, script :: scripts =>
    ⟨script, connection, index⟩ :: instances connection (index + 1) scripts

theorem instances_script (connection index : Nat) (scripts : List ServiceScript) :
    (instances connection index scripts).map ServiceNode.script = scripts := by
  induction scripts generalizing index with
  | nil => rfl
  | cons script scripts ih => exact congrArg (script :: ·) (ih (index + 1))

theorem le_of_mem_instances (h : service ∈ instances connection index scripts) :
    index ≤ service.index := by
  induction scripts generalizing index with
  | nil => cases h
  | cons script scripts ih =>
    rcases List.mem_cons.1 h with he | h
    · rw [he]
    · exact Nat.le_of_succ_le (ih h)

theorem instances_nodup (connection index : Nat) (scripts : List ServiceScript) :
    (instances connection index scripts).Nodup := by
  induction scripts generalizing index with
  | nil => exact List.nodup_nil
  | cons script scripts ih =>
    apply List.nodup_cons.2 ⟨fun h => ?_, ih (index + 1)⟩
    exact Nat.not_succ_le_self _ (le_of_mem_instances h)

variable {N : Type} [DecidableEq N] {s : ServiceRoot N}

omit [DecidableEq N] in
theorem foldl_createService (scripts : List ServiceScript) (s : ServiceRoot N) :
    scripts.foldl createService s =
      let made := instances s.connections s.services.length (scripts.filter ServiceScript.isLoaded)
      { s with
        services := s.services ++ made
        serviceCache := made.foldl (fun cache n => cache.set n.script n) s.serviceCache
        serviceNameCache :=
          made.foldl (fun cache n => cache.set n.script.globalName n) s.serviceNameCache
        repository := (made.map RootObject.service).foldl (fun r n => (r.addObject n).2)
          s.repository } := by
  induction scripts generalizing s with
  | nil => simp [instances]
  | cons script scripts ih =>
    rw [List.foldl_cons, ih]
    by_cases h : script.isLoaded = true
    · have hparts := h
      rw [ServiceScript.isLoaded, Bool.and_eq_true, decide_eq_true_eq] at hparts
      rw [List.filter_cons_of_pos h]
      simp only [createService, hparts.1, hparts.2, Bool.not_true, Bool.false_eq_true, if_false,
        instances, List.foldl_cons, List.length_append, List.length_singleton, List.map_cons,
        List.append_assoc, List.singleton_append]
    · have hsame : s.createService script = s := by
        rw [createService]
        split
        · rfl
        · next hname =>
          split
          · rfl
          · next hbase =>
            rw [Bool.not_eq_true', Bool.not_eq_false] at hbase
            rw [ServiceScript.isLoaded, Bool.and_eq_true, decide_eq_true_eq] at h
            exact absurd ⟨hname, hbase⟩ h
      rw [List.filter_cons_of_neg h, hsame]

/-- The channels once services have been set up. -/
def overrides (root : MultiplayerRoot) (channels : Dict ServiceNode Int)
    (nodes : List ServiceNode) : Dict ServiceNode Int :=
  nodes.foldl (fun channels service =>
    if 0 < service.script.reservedChannels then
      channels.set service (root.getServiceChannelStart service.script)
    else channels) channels

omit [DecidableEq N] in
theorem setup_eq (s : ServiceRoot N) (service : ServiceNode) :
    s.setup service = { s with
      calls := s.calls ++ [(service, .setup)]
      objectChannels := overrides s.toMultiplayerRoot s.objectChannels [service] } := by
  simp only [setup, overrides, List.foldl_cons, List.foldl_nil]
  split
  · rfl
  · rfl

/-- All services enter the tree before the first one is ready, and those that entered last are the
first to be ready, each with its channels before the next one. -/
theorem addServices_eq (nodes : List ServiceNode) (s : ServiceRoot N) (hnodup : nodes.Nodup)
    (hnew : ∀ n ∈ nodes, RootChild.service n ∉ s.children) :
    addServices nodes s = { s with
      children := s.children ++ nodes.reverse.map RootChild.service
      objectChannels := overrides s.toMultiplayerRoot s.objectChannels nodes.reverse
      calls := s.calls ++ (nodes.map (·, ServiceCall.enterTree) ++
        nodes.reverse.flatMap (fun n => [(n, .ready), (n, .setup)])) } := by
  induction nodes generalizing s with
  | nil => simp [addServices, overrides]
  | cons service nodes ih =>
    obtain ⟨hservice, hrest⟩ := List.nodup_cons.1 hnodup
    have hnext : ∀ n ∈ nodes, RootChild.service n ∉ s.children ++ [RootChild.service service] := by
      intro n hn hin
      rcases List.mem_append.1 hin with hin | hin
      · exact hnew n (List.mem_cons_of_mem _ hn) hin
      · rw [List.mem_singleton, RootChild.service.injEq] at hin
        exact hservice (hin ▸ hn)
    have hmoved : (s.children ++ [RootChild.service service] ++
        nodes.reverse.map RootChild.service).filter
          (fun child => child ≠ RootChild.service service) =
          s.children ++ nodes.reverse.map RootChild.service := by
      have hfront : s.children.filter (fun child => child ≠ RootChild.service service) =
          s.children := by
        rw [List.filter_eq_self]
        intro child hchild
        apply decide_eq_true
        intro he
        exact hnew service List.mem_cons_self (he ▸ hchild)
      have hback : (nodes.reverse.map RootChild.service).filter
          (fun child => child ≠ RootChild.service service) =
            (nodes.reverse.map (RootChild.service : ServiceNode → RootChild N)) := by
        rw [List.filter_eq_self]
        intro child hchild
        obtain ⟨n, hn, he⟩ := List.mem_map.1 hchild
        apply decide_eq_true
        intro hself
        rw [← he, RootChild.service.injEq] at hself
        exact hservice (hself ▸ List.mem_reverse.1 hn)
      have hself : [RootChild.service service].filter
          (fun child => child ≠ (RootChild.service service : RootChild N)) = [] := by simp
      rw [List.filter_append, List.filter_append, hfront, hback, hself, List.append_nil]
    rw [addServices, ih _ hrest hnext, setup_eq]
    simp only [hmoved]
    simp [overrides, List.foldl_append]

theorem get?_overrides (root : MultiplayerRoot) (channels : Dict ServiceNode Int)
    (nodes : List ServiceNode) (n : ServiceNode) : (overrides root channels nodes).get? n =
      if n ∈ nodes ∧ 0 < n.script.reservedChannels then
        some (root.getServiceChannelStart n.script)
      else channels.get? n := by
  induction nodes generalizing channels with
  | nil => simp [overrides]
  | cons service nodes ih =>
    have hcons : overrides root channels (service :: nodes) =
        overrides root (overrides root channels [service]) nodes := rfl
    rw [hcons, ih]
    by_cases hin : n ∈ nodes ∧ 0 < n.script.reservedChannels
    · rw [if_pos hin, if_pos ⟨List.mem_cons_of_mem _ hin.1, hin.2⟩]
    · rw [if_neg hin]
      simp only [overrides, List.foldl_cons, List.foldl_nil, List.mem_cons]
      by_cases he : n = service
      · rw [he]
        split
        · next hr => simp [hr]
        · next hr => simp [hr]
      · have hnot : ¬ ((n = service ∨ n ∈ nodes) ∧ 0 < n.script.reservedChannels) :=
          fun hb => hin ⟨hb.1.resolve_left he, hb.2⟩
        rw [if_neg hnot]
        split
        · exact Dict.get?_set_ne _ he
        · rfl

omit [DecidableEq N] in
theorem services_map (nodes : List ServiceNode) :
    (nodes.map (RootChild.service : ServiceNode → RootChild N)).filterMap RootChild.service? =
      nodes := by
  induction nodes with
  | nil => rfl
  | cons n nodes ih => exact congrArg (n :: ·) ih

theorem services_remove (services : List ServiceNode) (children : List (RootChild N)) :
    (services.foldl (fun children service =>
      children.filter (fun child => child ≠ RootChild.service service)) children).filterMap
        RootChild.service? =
      (children.filterMap RootChild.service?).filter (fun n => n ∉ services) := by
  induction services generalizing children with
  | nil => simp
  | cons service services ih =>
    have hone : (children.filter (fun child => child ≠ RootChild.service service)).filterMap
        RootChild.service? =
          (children.filterMap RootChild.service?).filter (fun n => n ≠ service) := by
      induction children with
      | nil => rfl
      | cons child children ih =>
        cases child with
        | node node => simpa [List.filterMap_cons, RootChild.service?] using ih
        | service n =>
          by_cases he : n = service
          · simpa [RootChild.service?, he] using ih
          · simpa [RootChild.service?, he] using ih
    rw [List.foldl_cons, ih, hone, List.filter_filter]
    apply List.filter_congr
    intro n _
    simp [Bool.and_comm]

variable (configuration : MultiplayerConfig)

/-- The root as it is once the channels have been determined. -/
def determined : MultiplayerRoot :=
  MultiplayerRoot.determineServiceChannels ⟨configuration, .empty, 0⟩

/-- What holds of a root while it is connected. -/
structure Serving (s : ServiceRoot N) : Prop where
  services : s.services = instances s.connections 0 configuration.loaded
  children : s.children.filterMap RootChild.service? = s.services
  calls : s.calls = s.services.reverse.map (·, ServiceCall.enterTree) ++
    s.services.flatMap (fun n => [(n, .ready), (n, .setup)])
  serviceCache : s.serviceCache = s.services.foldl (fun cache n => cache.set n.script n) .empty
  repository : s.repository = (RootObject.root :: s.services.map RootObject.service).foldl
    (fun r n => (r.addObject n).2) .new
  objectChannels : s.objectChannels = overrides (determined configuration) .empty s.services

/-- What holds of a root while it is not connected. -/
structure Idle (s : ServiceRoot N) : Prop where
  services : s.services = []
  children : s.children.filterMap RootChild.service? = []
  serviceCache : s.serviceCache = .empty

/-- The services of a root are those of its present connection. -/
structure Served (s : ServiceRoot N) : Prop where
  root : s.toMultiplayerRoot = determined configuration
  serving : s.connected = true → s.Serving configuration
  idle : s.connected = false → s.Idle

variable {configuration}

theorem Idle.setupServices (h : s.Idle) (hroot : s.toMultiplayerRoot = determined configuration)
    (hrepository : s.repository = .new) (hchannels : s.objectChannels = .empty) :
    s.setupServices.Serving configuration ∧ s.setupServices.connected = s.connected ∧
      s.setupServices.toMultiplayerRoot = s.toMultiplayerRoot := by
  have hconfiguration : s.configuration = configuration := by
    have he := congrArg MultiplayerRoot.configuration hroot
    rw [determined, MultiplayerRoot.configuration_determineServiceChannels] at he
    exact he
  have hmade := instances_nodup s.connections 0 configuration.loaded
  have hnew : ∀ n ∈ (instances s.connections 0 configuration.loaded).reverse,
      RootChild.service n ∉ s.children := by
    intro n _ hn
    have hin : n ∈ s.children.filterMap RootChild.service? := List.mem_filterMap.2 ⟨_, hn, rfl⟩
    rw [h.children] at hin
    cases hin
  have he : s.setupServices = { s with
      services := instances s.connections 0 configuration.loaded
      serviceCache := (instances s.connections 0 configuration.loaded).foldl
        (fun cache n => cache.set n.script n) .empty
      serviceNameCache := (instances s.connections 0 configuration.loaded).foldl
        (fun cache n => cache.set n.script.globalName n) .empty
      repository := ((instances s.connections 0 configuration.loaded).map
        RootObject.service).foldl (fun r n => (r.addObject n).2)
          (Repository.new.addObject RootObject.root).2
      children := s.children ++
        (instances s.connections 0 configuration.loaded).map RootChild.service
      objectChannels := overrides s.toMultiplayerRoot .empty
        (instances s.connections 0 configuration.loaded)
      calls := (instances s.connections 0 configuration.loaded).reverse.map
          (·, ServiceCall.enterTree) ++
        (instances s.connections 0 configuration.loaded).flatMap
          (fun n => [(n, .ready), (n, .setup)]) } := by
    rw [ServiceRoot.setupServices]
    simp only [cleanupServices, h.services, List.foldl_nil, foldl_createService, List.length_nil,
      List.nil_append, hconfiguration, hrepository, hchannels]
    rw [MultiplayerConfig.loaded] at hmade hnew ⊢
    rw [addServices_eq]
    · simp only [List.reverse_reverse, List.nil_append]
    · exact List.nodup_reverse.2 hmade
    · exact hnew
  rw [he]
  refine ⟨⟨rfl, ?_, rfl, rfl, rfl, ?_⟩, rfl, rfl⟩
  · rw [List.filterMap_append, h.children, services_map, List.nil_append]
  · rw [hroot]

theorem Serving.cleanupServices (h : s.Serving configuration) : s.cleanupServices.Idle := by
  refine ⟨rfl, ?_, rfl⟩
  rw [ServiceRoot.cleanupServices, services_remove, h.children, List.filter_eq_nil_iff]
  intro n hn hnot
  exact (of_decide_eq_true hnot) hn

omit [DecidableEq N] in
theorem served_start (configuration : MultiplayerConfig) :
    (start configuration : ServiceRoot N).Served configuration :=
  ⟨rfl, fun h => (by cases h), fun _ => ⟨rfl, rfl, rfl⟩⟩

omit [DecidableEq N] in
theorem Served.children {children : List (RootChild N)} (h : s.Served configuration)
    (hsame : children.filterMap RootChild.service? = s.children.filterMap RootChild.service?) :
    ({ s with children := children } : ServiceRoot N).Served configuration := by
  refine ⟨h.root, fun hc => ?_, fun hc => ?_⟩
  · have hs := h.serving hc
    exact ⟨hs.services, hsame.trans hs.children, hs.calls, hs.serviceCache, hs.repository,
      hs.objectChannels⟩
  · have hi := h.idle hc
    exact ⟨hi.services, hsame.trans hi.children, hi.serviceCache⟩

theorem Served.startConnection (h : s.Served configuration) (succeeds : Bool) :
    (s.startConnection succeeds).Served configuration := by
  rw [ServiceRoot.startConnection]
  split
  · exact h
  · next hc =>
    split
    · exact h
    · have hi := h.idle (Bool.eq_false_iff.2 hc)
      have hidle : Idle { s with
          connected := true
          connections := s.connections + 1
          repository := .new
          objectChannels := .empty } := ⟨hi.services, hi.children, hi.serviceCache⟩
      obtain ⟨hserving, hconnected, hroot⟩ := hidle.setupServices h.root rfl rfl
      refine ⟨hroot.trans h.root, fun _ => hserving, fun hno => ?_⟩
      rw [hconnected] at hno
      cases hno

theorem Served.endConnection (h : s.Served configuration) :
    s.endConnection.Served configuration := by
  rw [ServiceRoot.endConnection]
  split
  · exact h
  · next hc =>
    rw [Bool.not_eq_true', Bool.not_eq_false] at hc
    have hs := h.serving hc
    have hidle := hs.cleanupServices
    exact ⟨h.root, fun hno => (by cases hno),
      fun _ => ⟨hidle.services, hidle.children, hidle.serviceCache⟩⟩

theorem Served.step (h : s.Served configuration) (event : ServiceRootEvent N) :
    (s.step event).Served configuration := by
  cases event with
  | startConnection succeeds => exact h.startConnection succeeds
  | endConnection => exact h.endConnection
  | addChild node =>
    apply h.children
    rw [List.filterMap_append]
    exact List.append_nil _
  | removeChild node =>
    apply h.children
    rw [List.filterMap_filter]
    apply List.filterMap_congr
    intro child _
    cases child with
    | service n => rfl
    | node n =>
      split
      · rfl
      · rfl

omit [DecidableEq N] in
theorem Serving.getService (h : s.Serving configuration) (t : ServiceScript) :
    (t ∈ s.services.map ServiceNode.script → s.getService t ≠ none) ∧
      ∀ n, s.getService t = some n → n ∈ s.services ∧ n.script = t := by
  have hpairs : s.serviceCache = Dict.ofPairs (s.services.map (fun n => (n.script, n))) := by
    rw [h.serviceCache, Dict.ofPairs, List.foldl_map]
  rw [ServiceRoot.getService, hpairs]
  constructor
  · intro ht hnone
    obtain ⟨n, hn, he⟩ := List.mem_map.1 ht
    rw [Dict.get?_eq_none_iff, Dict.mem_ofPairs] at hnone
    exact hnone ⟨n, List.mem_map.2 ⟨n, hn, by rw [he]⟩⟩
  · intro n hn
    obtain ⟨m, hm, he⟩ := List.mem_map.1 (Dict.mem_of_get?_ofPairs _ hn)
    rw [Prod.mk.injEq] at he
    rw [← he.2]
    exact ⟨hm, he.1⟩

/-- However often a root connects, with success or without, and loses the connection again, its
services are there exactly while it is connected. They are those of the configuration, in its order
also as children, have all entered the tree before the first one is ready, and are ready and set up
one after the other. The configuration alone decides their ids and their channels, so that they are
the same on both sides. -/
theorem served_run (configuration : MultiplayerConfig) (events : List (ServiceRootEvent N))
    (hroom : (configuration.loaded.length : Int) < maxId) :
    let s : ServiceRoot N := Runs.run step (start configuration) events
    (s.connected = false → s.services = [] ∧ s.children.filterMap RootChild.service? = [] ∧
      ∀ t, s.getService t = none) ∧
    (s.connected = true →
      s.services.map ServiceNode.script = configuration.loaded ∧
      s.children.filterMap RootChild.service? = s.services ∧
      s.calls = s.services.reverse.map (·, ServiceCall.enterTree) ++
        s.services.flatMap (fun n => [(n, .ready), (n, .setup)]) ∧
      (∀ t, s.getService t ≠ none ↔ t ∈ configuration.loaded) ∧
      (∀ t n, s.getService t = some n → n ∈ s.services ∧ n.script = t) ∧
      s.repository.getId .root = 0 ∧
      ∀ (i : Nat) (n : ServiceNode), s.services[i]? = some n →
        s.repository.getId (.service n) = i + 1 ∧
        s.objectChannels.getD n 0 =
          if 0 < n.script.reservedChannels then
            (determined configuration).getServiceChannelStart n.script
          else 0) := by
  intro s
  have hs : s.Served configuration :=
    (Runs.always_of_step (fun _ event h => h.step event) (served_start configuration) events).last
  refine ⟨fun hc => ⟨(hs.idle hc).services, (hs.idle hc).children, fun t => ?_⟩, fun hc => ?_⟩
  · rw [getService, (hs.idle hc).serviceCache]
    rfl
  have hserving := hs.serving hc
  have hscripts : s.services.map ServiceNode.script = configuration.loaded := by
    rw [hserving.services]
    exact instances_script _ _ _
  have hnodup : (RootObject.root :: s.services.map RootObject.service).Nodup := by
    rw [List.nodup_cons]
    constructor
    · intro hin
      obtain ⟨_, _, he⟩ := List.mem_map.1 hin
      cases he
    · rw [hserving.services]
      apply (instances_nodup _ _ _).map
      intro a b he
      exact RootObject.service.inj he
  have hlength : (((RootObject.root :: s.services.map RootObject.service).length : Nat) : Int) ≤
      maxId := by
    rw [← hscripts, List.length_map] at hroom
    rw [List.length_cons, List.length_map]
    omega
  have hids := Repository.getId_foldl_addObject hnodup Repository.counted_new
    (by rw [Int.natCast_zero, Int.zero_add]; exact hlength)
  have hrepository := hserving.repository
  refine ⟨hscripts, hserving.children, hserving.calls, fun t => ⟨fun ht => ?_, fun ht => ?_⟩,
    fun t => (hserving.getService t).2, ?_, fun i n hi => ⟨?_, ?_⟩⟩
  · obtain ⟨n, hn⟩ := Option.ne_none_iff_exists'.1 ht
    obtain ⟨hmem, hscript⟩ := (hserving.getService t).2 n hn
    rw [← hscripts]
    exact List.mem_map.2 ⟨n, hmem, hscript⟩
  · rw [← hscripts] at ht
    exact (hserving.getService t).1 ht
  · rw [hrepository, (hids .root).2 0 rfl]
    rfl
  · have hi' : (RootObject.root :: s.services.map RootObject.service)[i + 1]? =
        some (.service n) := by
      rw [List.getElem?_cons_succ, List.getElem?_map, hi]
      rfl
    rw [hrepository, (hids _).2 (i + 1) hi']
    omega
  · rw [Dict.getD, hserving.objectChannels, get?_overrides]
    have hn := List.mem_of_getElem? hi
    by_cases hr : 0 < n.script.reservedChannels
    · rw [if_pos ⟨hn, hr⟩, if_pos hr]
      rfl
    · rw [if_neg (fun hb => hr hb.2), if_neg hr]
      rfl

/-- A root that loses its connection, and connects again at the second attempt. -/
def reconnected : List (ServiceRootEvent Nat) :=
  [.startConnection true, .addChild 1, .endConnection, .startConnection false,
    .startConnection true]

theorem voice_reconnected :
    let s : ServiceRoot Nat := Runs.run step (start MultiplayerRoot.chatConfiguration) reconnected
    s.repository.getId (.service ⟨⟨"Voice", true, 3⟩, 2, 4⟩) = 5 := by
  intro s
  have hroom : (MultiplayerRoot.chatConfiguration.loaded.length : Int) < maxId := by decide +kernel
  have hconnected : s.connected = true := by decide +kernel
  have hvoice : s.services[4]? = some ⟨⟨"Voice", true, 3⟩, 2, 4⟩ := by decide +kernel
  obtain ⟨_, hserved⟩ := served_run (N := Nat) MultiplayerRoot.chatConfiguration reconnected hroom
  obtain ⟨_, _, _, _, _, _, hids⟩ := hserved hconnected
  exact (hids 4 _ hvoice).1

end ServiceRoot

end Godaemon
