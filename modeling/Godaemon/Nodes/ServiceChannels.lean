import Mathlib
import Godaemon.Lib.Blocks
import Godaemon.Lib.Dict

namespace Godaemon
set_option autoImplicit true

/-- A script that a root may load as a service, and what an instance of it says. -/
structure ServiceScript where
  globalName : String
  isServiceBase : Bool
  reservedChannels : Int
deriving DecidableEq

structure MultiplayerConfig where
  services : List ServiceScript
  defaultServices : Bool
  channelCount : Int

/-- The channels of a client's or a server's root. -/
structure MultiplayerRoot where
  configuration : MultiplayerConfig
  serviceChannelStart : Dict String Int
  serviceChannelCount : Int

namespace MultiplayerConfig

def defaultServiceScripts : List ServiceScript :=
  [⟨"ReplicationService", true, 0⟩, ⟨"SyncService", true, 0⟩, ⟨"ZoneService", true, 0⟩]

def servicesToLoad (configuration : MultiplayerConfig) : List ServiceScript :=
  (if configuration.defaultServices then defaultServiceScripts else []) ++ configuration.services

end MultiplayerConfig

/-- A script without a global name, or of something else, is passed over. -/
def ServiceScript.isLoaded (script : ServiceScript) : Bool :=
  script.globalName ≠ "" && script.isServiceBase

/-- The services that a configuration loads, in order. -/
def MultiplayerConfig.loaded (configuration : MultiplayerConfig) : List ServiceScript :=
  configuration.servicesToLoad.filter ServiceScript.isLoaded

namespace MultiplayerRoot

/-- One round of the loop that gives every service its channels. -/
def placeService (root : MultiplayerRoot) (script : ServiceScript) : MultiplayerRoot :=
  if script.globalName = "" then root
  else if !script.isServiceBase then root
  else
    { root with
      serviceChannelStart :=
        root.serviceChannelStart.set script.globalName root.serviceChannelCount
      serviceChannelCount := root.serviceChannelCount + script.reservedChannels }

def determineServiceChannels (root : MultiplayerRoot) : MultiplayerRoot :=
  root.configuration.servicesToLoad.foldl placeService { root with serviceChannelCount := 0 }

def getServiceChannelStart (root : MultiplayerRoot) (service : ServiceScript) : Int :=
  match root.serviceChannelStart.get? service.globalName with
  | none => 0
  | some start => start + root.configuration.channelCount + 1

def getTotalChannelCount (root : MultiplayerRoot) : Int :=
  1 + root.configuration.channelCount + root.serviceChannelCount

/-- The channels that a service may send on. -/
def serviceChannels (root : MultiplayerRoot) (service : ServiceScript) : Set Int :=
  Set.Ico (root.getServiceChannelStart service)
    (root.getServiceChannelStart service + service.reservedChannels)

def defaultChannels (root : MultiplayerRoot) : Set Int :=
  Set.Icc 0 root.configuration.channelCount

variable {root : MultiplayerRoot} {configuration : MultiplayerConfig} {service : ServiceScript}
  {scripts : List ServiceScript}

theorem placeService_of_loaded (root : MultiplayerRoot) (h : script.isLoaded = true) :
    root.placeService script = ⟨root.configuration,
      root.serviceChannelStart.set script.globalName root.serviceChannelCount,
      root.serviceChannelCount + script.reservedChannels⟩ := by
  unfold ServiceScript.isLoaded at h
  rw [Bool.and_eq_true, decide_eq_true_eq] at h
  simp only [placeService, h.1, h.2, Bool.not_true, Bool.false_eq_true, ↓reduceIte]

theorem placeService_of_not_loaded (h : ¬ script.isLoaded = true) :
    root.placeService script = root := by
  unfold ServiceScript.isLoaded at h
  rw [Bool.and_eq_true, decide_eq_true_eq] at h
  unfold placeService
  by_cases hname : script.globalName = ""
  · rw [if_pos hname]
  · have hbase : script.isServiceBase = false := by
      apply Bool.eq_false_iff.2
      intro hbase
      exact h ⟨hname, hbase⟩
    rw [if_neg hname, hbase]
    rfl

theorem foldl_placeService_filter (scripts : List ServiceScript) :
    scripts.foldl placeService root =
      (scripts.filter ServiceScript.isLoaded).foldl placeService root := by
  induction scripts generalizing root with
  | nil => rfl
  | cons script scripts ih =>
    by_cases h : script.isLoaded = true
    · rw [List.filter_cons_of_pos h, List.foldl_cons, List.foldl_cons, ih]
    · rw [List.filter_cons_of_neg h, List.foldl_cons, placeService_of_not_loaded h, ih]

theorem configuration_foldl (h : ∀ s ∈ scripts, s.isLoaded = true) :
    (scripts.foldl placeService root).configuration = root.configuration := by
  induction scripts generalizing root with
  | nil => rfl
  | cons script scripts ih =>
    rw [List.foldl_cons, ih (fun s hs => h s (List.mem_cons_of_mem _ hs)),
      root.placeService_of_loaded (h script List.mem_cons_self)]

theorem serviceChannelCount_foldl (h : ∀ s ∈ scripts, s.isLoaded = true) :
    (scripts.foldl placeService root).serviceChannelCount =
      root.serviceChannelCount + Blocks.total ServiceScript.reservedChannels scripts := by
  induction scripts generalizing root with
  | nil => exact (Int.add_zero _).symm
  | cons script scripts ih =>
    rw [List.foldl_cons, ih (fun s hs => h s (List.mem_cons_of_mem _ hs)),
      root.placeService_of_loaded (h script List.mem_cons_self), Blocks.total_cons, Int.add_assoc]

theorem serviceChannelStart_foldl_of_not_mem (h : ∀ s ∈ scripts, s.isLoaded = true)
    (hname : name ∉ scripts.map ServiceScript.globalName) :
    (scripts.foldl placeService root).serviceChannelStart.get? name =
      root.serviceChannelStart.get? name := by
  induction scripts generalizing root with
  | nil => rfl
  | cons script scripts ih =>
    rw [List.map_cons, List.mem_cons, not_or] at hname
    rw [List.foldl_cons, ih (fun s hs => h s (List.mem_cons_of_mem _ hs)) hname.2,
      root.placeService_of_loaded (h script List.mem_cons_self)]
    exact Dict.get?_set_ne _ hname.1

theorem serviceChannelStart_foldl (h : ∀ s ∈ scripts, s.isLoaded = true)
    (hnames : (scripts.map ServiceScript.globalName).Nodup) (hs : service ∈ scripts) :
    (scripts.foldl placeService root).serviceChannelStart.get? service.globalName =
      some (root.serviceChannelCount + Blocks.start ServiceScript.globalName
        ServiceScript.reservedChannels scripts service.globalName) := by
  induction scripts generalizing root with
  | nil => cases hs
  | cons script scripts ih =>
    have htail : ∀ s ∈ scripts, s.isLoaded = true := fun s hs => h s (List.mem_cons_of_mem _ hs)
    have hfirst := root.placeService_of_loaded (h script List.mem_cons_self)
    obtain ⟨hscript, hnames⟩ := List.nodup_cons.1 hnames
    rw [List.foldl_cons]
    rcases List.mem_cons.1 hs with rfl | hs
    · rw [serviceChannelStart_foldl_of_not_mem htail hscript, hfirst, Dict.get?_set_self,
        Blocks.start_cons_self, Int.add_zero]
    · have hne : script.globalName ≠ service.globalName := by
        intro he
        exact hscript (List.mem_map.2 ⟨service, hs, he.symm⟩)
      rw [ih htail hnames hs, hfirst, Blocks.start_cons_ne hne, Int.add_assoc]

theorem loaded_isLoaded : ∀ s ∈ configuration.loaded, s.isLoaded = true :=
  fun _ hs => (List.mem_filter.1 hs).2

theorem determineServiceChannels_eq : root.determineServiceChannels =
    root.configuration.loaded.foldl placeService { root with serviceChannelCount := 0 } :=
  foldl_placeService_filter _

@[simp] theorem configuration_determineServiceChannels :
    root.determineServiceChannels.configuration = root.configuration := by
  rw [determineServiceChannels_eq, configuration_foldl loaded_isLoaded]

theorem getTotalChannelCount_determineServiceChannels (root : MultiplayerRoot) :
    root.determineServiceChannels.getTotalChannelCount = 1 + root.configuration.channelCount +
      Blocks.total ServiceScript.reservedChannels root.configuration.loaded := by
  rw [getTotalChannelCount, configuration_determineServiceChannels, determineServiceChannels_eq,
    serviceChannelCount_foldl loaded_isLoaded, Int.zero_add]

theorem getServiceChannelStart_determineServiceChannels
    (hnames : (root.configuration.loaded.map ServiceScript.globalName).Nodup)
    (hs : service ∈ root.configuration.loaded) :
    root.determineServiceChannels.getServiceChannelStart service =
      Blocks.start ServiceScript.globalName ServiceScript.reservedChannels root.configuration.loaded
        service.globalName + root.configuration.channelCount + 1 := by
  rw [getServiceChannelStart, configuration_determineServiceChannels,
    determineServiceChannels_eq, serviceChannelStart_foldl loaded_isLoaded hnames hs]
  simp only [Int.zero_add]

/-- No two services share a channel, none has a default one, and all their channels exist. Both
sides of a connection agree on them. -/
theorem serviceChannels_separate (client server : MultiplayerRoot) (service : ServiceScript)
    (hconfiguration : client.configuration = server.configuration)
    (hnames : (client.configuration.loaded.map ServiceScript.globalName).Nodup)
    (hreserved : ∀ s ∈ client.configuration.loaded, 0 ≤ s.reservedChannels)
    (hcount : 0 ≤ client.configuration.channelCount)
    (hs : service ∈ client.configuration.loaded) :
    (∀ other ∈ client.configuration.loaded, other ≠ service →
      Disjoint (client.determineServiceChannels.serviceChannels service)
        (client.determineServiceChannels.serviceChannels other)) ∧
    Disjoint (client.determineServiceChannels.serviceChannels service)
      client.determineServiceChannels.defaultChannels ∧
    client.determineServiceChannels.serviceChannels service ⊆
      Set.Icc 0 (client.determineServiceChannels.getTotalChannelCount - 1) ∧
    client.determineServiceChannels.serviceChannels service =
      server.determineServiceChannels.serviceChannels service ∧
    client.determineServiceChannels.getTotalChannelCount =
      server.determineServiceChannels.getTotalChannelCount := by
  have hstart := getServiceChannelStart_determineServiceChannels hnames hs
  have hserver := getServiceChannelStart_determineServiceChannels
    (hconfiguration ▸ hnames) (hconfiguration ▸ hs)
  have htotal := client.getTotalChannelCount_determineServiceChannels
  have hfirst : 0 ≤ Blocks.start ServiceScript.globalName ServiceScript.reservedChannels
    client.configuration.loaded service.globalName := Blocks.start_nonneg hreserved
  have hend := Blocks.start_add_le hreserved hnames hs
  refine ⟨fun other ho hne => ?_, ?_, ?_, ?_, ?_⟩
  · rw [Set.disjoint_left]
    intro channel h h'
    have hother := getServiceChannelStart_determineServiceChannels hnames ho
    have hapart := Blocks.start_add_le_or hreserved hnames hs ho hne.symm
    rw [serviceChannels, Set.mem_Ico] at h h'
    omega
  · rw [Set.disjoint_left]
    intro channel h h'
    rw [serviceChannels, Set.mem_Ico] at h
    rw [defaultChannels, Set.mem_Icc, configuration_determineServiceChannels] at h'
    omega
  · intro channel h
    rw [serviceChannels, Set.mem_Ico] at h
    rw [Set.mem_Icc]
    omega
  · rw [serviceChannels, serviceChannels, hstart, hserver, hconfiguration]
  · rw [htotal, getTotalChannelCount_determineServiceChannels, hconfiguration]

/-- Two services with channels of their own, beside the default ones. -/
def chatConfiguration : MultiplayerConfig :=
  ⟨[⟨"Chat", true, 2⟩, ⟨"", true, 7⟩, ⟨"Helper", false, 5⟩, ⟨"Voice", true, 3⟩], true, 4⟩

theorem voice_channels :
    let client : MultiplayerRoot := ⟨chatConfiguration, .empty, 0⟩
    let server : MultiplayerRoot := ⟨chatConfiguration, .ofPairs [("Voice", 9)], 2⟩
    client.determineServiceChannels.serviceChannels ⟨"Voice", true, 3⟩ =
      server.determineServiceChannels.serviceChannels ⟨"Voice", true, 3⟩ ∧
    client.determineServiceChannels.getServiceChannelStart ⟨"Voice", true, 3⟩ = 7 := by
  intro client server
  have h := serviceChannels_separate client server ⟨"Voice", true, 3⟩ rfl
    (by decide) (by decide) (by decide) (by decide)
  exact ⟨h.2.2.2.1, by decide⟩

end MultiplayerRoot

end Godaemon
