import Godaemon.Lib.Dict
import Godaemon.Lib.Forest
import Godaemon.Lib.Runs
import Godaemon.Lib.Segments
import Godaemon.Replication.Config

namespace Godaemon
set_option autoImplicit true

structure ScriptReplication where
  methodConfig : List ReplicationMethodConfig := []
  propertyConfig : List ReplicationPropertyConfig := []
  signalConfig : List ReplicationSignalConfig := []

/-- A kind of replicated field: where a script keeps its configs, and which of the two index
lookups asks for a replicated script before it searches. -/
structure FieldKind (C : Type) where
  name : C → String
  configs : ScriptReplication → List C
  idxNeedsBase : Bool
  configNeedsBase : Bool

def methodField : FieldKind ReplicationMethodConfig :=
  ⟨fun c => c.name, fun sr => sr.methodConfig, false, true⟩

def propertyField : FieldKind ReplicationPropertyConfig :=
  ⟨fun c => c.name, fun sr => sr.propertyConfig, true, false⟩

def signalField : FieldKind ReplicationSignalConfig :=
  ⟨fun c => c.name, fun sr => sr.signalConfig, false, false⟩

namespace ScriptReplication

variable {C : Type} [DecidableEq C] (k : FieldKind C)

/-- The caches that `setup_cache` fills: later configs overwrite earlier ones. -/
def nameCache (cs : List C) : Dict String C := .ofPairs (cs.map (fun m => (k.name m, m)))

def idxCache (cs : List C) : Dict C Nat := .ofPairs cs.zipIdx

def getConfig (sr : ScriptReplication) (name : String) : Option C :=
  (nameCache k (k.configs sr)).get? name

def hasConfig (sr : ScriptReplication) (c : C) : Bool :=
  k.name c ∈ nameCache k (k.configs sr)

def getIdxFromConfig (sr : ScriptReplication) (config : C) : Int :=
  match (idxCache (k.configs sr)).get? config with
  | some idx => idx
  | none => -1

def getConfigFromIdx (sr : ScriptReplication) (idx : Int) : Option C :=
  if idx < 0 ∨ idx ≥ (k.configs sr).length then none else (k.configs sr)[idx.toNat]?

omit [DecidableEq C] in
theorem hasConfig_iff {sr : ScriptReplication} {c : C} :
    sr.hasConfig k c = true ↔ ∃ m ∈ k.configs sr, k.name m = k.name c := by
  rw [hasConfig, decide_eq_true_eq, nameCache, Dict.mem_ofPairs]
  simp only [List.mem_map, Prod.mk.injEq]
  constructor
  · rintro ⟨_, m, hm, hn, _⟩
    exact ⟨m, hm, hn⟩
  · rintro ⟨m, hm, hn⟩
    exact ⟨m, m, hm, hn, rfl⟩

omit [DecidableEq C] in
theorem hasConfig_of_mem {sr : ScriptReplication} (h : c ∈ k.configs sr) :
    sr.hasConfig k c = true :=
  (hasConfig_iff k).2 ⟨c, h, rfl⟩

theorem getIdxFromConfig_of_mem {sr : ScriptReplication} (h : c ∈ k.configs sr) :
    ∃ i : Nat, sr.getIdxFromConfig k c = i ∧ (k.configs sr)[i]? = some c := by
  obtain ⟨j, hj⟩ := List.mem_iff_getElem?.1 h
  have hm : c ∈ idxCache (k.configs sr) :=
    (Dict.mem_ofPairs _).2 ⟨j, List.mk_mem_zipIdx_iff_getElem?.2 hj⟩
  obtain ⟨i, hi⟩ := (Dict.mem_iff_get? _).1 hm
  refine ⟨i, by simp only [getIdxFromConfig, hi], ?_⟩
  exact List.mk_mem_zipIdx_iff_getElem?.1 (Dict.mem_of_get?_ofPairs _ hi)

theorem getIdxFromConfig_of_not_mem {sr : ScriptReplication} (h : c ∉ k.configs sr) :
    sr.getIdxFromConfig k c = -1 := by
  have hn : c ∉ idxCache (k.configs sr) := fun hm => by
    obtain ⟨i, hi⟩ := (Dict.mem_ofPairs _).1 hm
    exact h (List.mem_of_getElem? (List.mk_mem_zipIdx_iff_getElem?.1 hi))
  simp only [getIdxFromConfig, (Dict.get?_eq_none_iff _).2 hn]

end ScriptReplication

/-- Scripts with their base scripts, and the replication stored for some of them. -/
structure ReplicationData (S : Type) where
  scripts : Forest S
  scriptReplicationMap : S → Option ScriptReplication

/-- The memo tables for one kind of field. -/
structure ConfigCache (S C : Type) where
  toIdx : Dict (Option S) (Dict C Int)
  toConfig : Dict (Option S) (Dict Int (Option C))

def ConfigCache.empty : ConfigCache S C := ⟨.empty, .empty⟩

namespace ReplicationData

variable {S C : Type} [DecidableEq S] [DecidableEq C] (d : ReplicationData S) (k : FieldKind C)

def getScriptReplication (script : Option S) (parentDepth : Nat := 0) :
    Option ScriptReplication :=
  script.bind fun s => ((d.scripts.path s)[parentDepth]?).bind d.scriptReplicationMap

def getReplicationParentDepth : Option S → Int
  | none => -1
  | some s =>
    match (d.scripts.path s).findIdx? (fun t => (d.scriptReplicationMap t).isSome) with
    | some parentDepth => parentDepth
    | none => -1

def getBaseScriptReplication (script : Option S) : Option ScriptReplication :=
  if d.getReplicationParentDepth script = -1 then none
  else d.getScriptReplication script (d.getReplicationParentDepth script).toNat

def getAllScriptReplications : Option S → List ScriptReplication
  | none => []
  | some s => (d.scripts.path s).filterMap d.scriptReplicationMap

/-- The loop that looks a config up by name and adds its position to a running offset. -/
def searchIdx (c : C) : Int → List ScriptReplication → Option Int
  | _, [] => none
  | currentIdx, sr :: srs =>
    if sr.hasConfig k c then some (currentIdx + sr.getIdxFromConfig k c)
    else searchIdx c (currentIdx + (k.configs sr).length) srs

/-- The loop that takes off the number of configs of each script until the index fits. -/
def searchConfig : Int → List ScriptReplication → Option (Option C)
  | _, [] => none
  | idx, sr :: srs =>
    if idx < (k.configs sr).length then some (sr.getConfigFromIdx k idx)
    else if idx - (k.configs sr).length < 0 then none
    else searchConfig (idx - (k.configs sr).length) srs

/-- The body shared by the lookups from a config to its index. -/
def objectToIdx (cache : ConfigCache S C) (script : Option S) (c : C) :
    Int × ConfigCache S C :=
  let cached := (cache.toIdx.get2? script c).getD (-1)
  if cached ≠ -1 then (cached, cache)
  else if k.idxNeedsBase && (d.getBaseScriptReplication script).isNone then (-1, cache)
  else
    match searchIdx k c 0 (d.getAllScriptReplications script) with
    | some resultIdx =>
      (resultIdx, { cache with toIdx := cache.toIdx.set2 script c resultIdx })
    | none => (-1, cache)

/-- The body shared by the lookups from an index to its config. -/
def objectIdxTo (cache : ConfigCache S C) (script : Option S) (idx : Int) :
    Option C × ConfigCache S C :=
  match (cache.toConfig.get2? script idx).join with
  | some config => (some config, cache)
  | none =>
    if k.configNeedsBase && (d.getBaseScriptReplication script).isNone then (none, cache)
    else
      match searchConfig k idx (d.getAllScriptReplications script) with
      | some config => (config, { cache with toConfig := cache.toConfig.set2 script idx config })
      | none => (none, cache)

abbrev MethodCache (S : Type) := ConfigCache S ReplicationMethodConfig
abbrev PropertyCache (S : Type) := ConfigCache S ReplicationPropertyConfig
abbrev SignalCache (S : Type) := ConfigCache S ReplicationSignalConfig

def objectMethodToIdx (cache : MethodCache S) := d.objectToIdx methodField cache
def objectIdxToMethod (cache : MethodCache S) := d.objectIdxTo methodField cache
def objectPropertyToIdx (cache : PropertyCache S) := d.objectToIdx propertyField cache
def objectIdxToProperty (cache : PropertyCache S) := d.objectIdxTo propertyField cache
def objectSignalToIdx (cache : SignalCache S) := d.objectToIdx signalField cache
def objectIdxToSignal (cache : SignalCache S) := d.objectIdxTo signalField cache

/-- The lists of configs of one kind along a script's inheritance chain. -/
def chain (script : Option S) : List (List C) := (d.getAllScriptReplications script).map k.configs

/-- What the memo tables are meant to hold. -/
def freshIdx (script : Option S) (c : C) : Int :=
  (searchIdx k c 0 (d.getAllScriptReplications script)).getD (-1)

def freshConfig (script : Option S) (idx : Int) : Option C :=
  Segments.fetch (d.chain k script) idx

/-- The config of a name along a script's inheritance chain. Its memo table only ever repeats
what the search gives, and is left out. -/
def objectToConfig (script : Option S) (name : String) : Option C :=
  (d.getAllScriptReplications script).findSome? (fun sr => sr.getConfig k name)

variable {d k}

omit [DecidableEq S] in
theorem getReplicationParentDepth_eq_iff {script : Option S} :
    d.getReplicationParentDepth script = -1 ↔ d.getAllScriptReplications script = [] := by
  cases script with
  | none => simp [getReplicationParentDepth, getAllScriptReplications]
  | some s =>
    simp only [getReplicationParentDepth, getAllScriptReplications, List.filterMap_eq_nil_iff]
    cases h : (d.scripts.path s).findIdx? (fun t => (d.scriptReplicationMap t).isSome) with
    | none => simpa [List.findIdx?_eq_none_iff] using h
    | some n =>
      obtain ⟨hn, hs, _⟩ := List.findIdx?_eq_some_iff_getElem.1 h
      have hne : ¬ ((n : Int) = -1) := by omega
      simp only [hne, false_iff]
      intro hall
      rw [hall _ (List.getElem_mem hn)] at hs
      cases hs

omit [DecidableEq S] in
theorem all_of_base_none {script : Option S} (h : d.getBaseScriptReplication script = none) :
    d.getAllScriptReplications script = [] := by
  by_cases hd : d.getReplicationParentDepth script = -1
  · exact getReplicationParentDepth_eq_iff.1 hd
  · rw [getBaseScriptReplication, if_neg hd] at h
    cases script with
    | none => rfl
    | some s =>
      simp only [getReplicationParentDepth] at hd h
      cases hf : (d.scripts.path s).findIdx? (fun t => (d.scriptReplicationMap t).isSome) with
      | none => simp [hf] at hd
      | some n =>
        obtain ⟨hn, hs, _⟩ := List.findIdx?_eq_some_iff_getElem.1 hf
        simp [hf, getScriptReplication, List.getElem?_eq_getElem hn] at h
        simp [h] at hs

theorem searchIdx_eq (c : C) (offset : Int) (srs : List ScriptReplication) :
    searchIdx k c offset srs =
      Segments.locate (fun sr : ScriptReplication => sr.hasConfig k c)
        (fun sr => sr.getIdxFromConfig k c) k.configs offset srs := by
  induction srs generalizing offset with
  | nil => rfl
  | cons sr srs ih => simp only [searchIdx, Segments.locate, ih]

end ReplicationData

end Godaemon
