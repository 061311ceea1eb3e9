import Godaemon.Replication.Data

namespace Godaemon
set_option autoImplicit true

namespace ReplicationData

variable {S C : Type} [DecidableEq S] [DecidableEq C] {d : ReplicationData S} {k : FieldKind C}
  {cache : ConfigCache S C} {script : Option S}

omit [DecidableEq S] [DecidableEq C] in
theorem searchConfig_eq (idx : Int) (srs : List ScriptReplication) :
    (searchConfig k idx srs).join = Segments.fetch (srs.map k.configs) idx := by
  induction srs generalizing idx with
  | nil => rfl
  | cons sr srs ih =>
    simp only [searchConfig, List.map_cons, Segments.fetch]
    by_cases hlt : idx < (k.configs sr).length
    · rw [if_pos hlt, if_pos hlt]
      by_cases h0 : idx < 0
      · simp [ScriptReplication.getConfigFromIdx, h0]
      · have hr : ¬ (idx < 0 ∨ idx ≥ (k.configs sr).length) := by omega
        rw [ScriptReplication.getConfigFromIdx, if_neg hr, if_neg h0]
        rfl
    · rw [if_neg hlt, if_neg (by omega), if_neg hlt, ih]

/-- Every entry of the memo tables is what a search would give. -/
structure CacheSound (d : ReplicationData S) (k : FieldKind C) (cache : ConfigCache S C) :
    Prop where
  to_idx : ∀ script c i, cache.toIdx.get2? script c = some i → i = d.freshIdx k script c
  to_config : ∀ script idx c, cache.toConfig.get2? script idx = some (some c) →
    d.freshConfig k script idx = some c

theorem CacheSound.empty : CacheSound d k .empty :=
  ⟨fun _ _ _ h => by simp [ConfigCache.empty, Dict.get2?_empty] at h,
    fun _ _ _ h => by simp [ConfigCache.empty, Dict.get2?_empty] at h⟩

theorem CacheSound.put_idx (h : CacheSound d k cache) (hi : i = d.freshIdx k script c) :
    CacheSound d k { cache with toIdx := cache.toIdx.set2 script c i } := by
  refine ⟨fun s c' j hj => ?_, h.to_config⟩
  rw [Dict.get2?_set2] at hj
  split at hj
  · next hk =>
    obtain ⟨rfl, rfl⟩ := hk
    cases hj
    exact hi
  · exact h.to_idx s c' j hj

theorem CacheSound.put_config (h : CacheSound d k cache)
    (hc : d.freshConfig k script idx = config) :
    CacheSound d k { cache with toConfig := cache.toConfig.set2 script idx config } := by
  refine ⟨h.to_idx, fun s j c' hj => ?_⟩
  rw [Dict.get2?_set2] at hj
  split at hj
  · next hk =>
    obtain ⟨rfl, rfl⟩ := hk
    cases hj
    exact hc
  · exact h.to_config s j c' hj

theorem objectToIdx_spec (script : Option S) (c : C) (h : CacheSound d k cache) :
    (d.objectToIdx k cache script c).1 = d.freshIdx k script c ∧
      CacheSound d k (d.objectToIdx k cache script c).2 := by
  simp only [objectToIdx]
  by_cases hc : (cache.toIdx.get2? script c).getD (-1) ≠ -1
  · rw [if_pos hc]
    cases hg : cache.toIdx.get2? script c with
    | none => simp [hg] at hc
    | some i => exact ⟨h.to_idx _ _ _ hg, h⟩
  · rw [if_neg hc]
    by_cases hb : k.idxNeedsBase && (d.getBaseScriptReplication script).isNone
    · rw [if_pos hb]
      have hn : d.getBaseScriptReplication script = none := by
        simpa using (Bool.and_eq_true_iff.1 hb).2
      simp only [freshIdx, all_of_base_none hn, searchIdx]
      exact ⟨rfl, h⟩
    · rw [if_neg hb]
      cases hs : searchIdx k c 0 (d.getAllScriptReplications script) with
      | none => exact ⟨by simp [freshIdx, hs], h⟩
      | some i =>
        have hi : i = d.freshIdx k script c := by simp [freshIdx, hs]
        exact ⟨hi, h.put_idx hi⟩

theorem objectIdxTo_spec (h : CacheSound d k cache) :
    (d.objectIdxTo k cache script idx).1 = d.freshConfig k script idx ∧
      CacheSound d k (d.objectIdxTo k cache script idx).2 := by
  simp only [objectIdxTo]
  cases hg : (cache.toConfig.get2? script idx).join with
  | some c => exact ⟨(h.to_config _ _ _ (Option.join_eq_some_iff.1 hg)).symm, h⟩
  | none =>
    simp only
    by_cases hb : k.configNeedsBase && (d.getBaseScriptReplication script).isNone
    · rw [if_pos hb]
      have hn : d.getBaseScriptReplication script = none := by
        simpa using (Bool.and_eq_true_iff.1 hb).2
      simp only [freshConfig, chain, all_of_base_none hn]
      exact ⟨rfl, h⟩
    · rw [if_neg hb]
      have he := searchConfig_eq (k := k) idx (d.getAllScriptReplications script)
      cases hs : searchConfig k idx (d.getAllScriptReplications script) with
      | none => exact ⟨by simpa [hs, freshConfig, chain] using he, h⟩
      | some config =>
        have hc : d.freshConfig k script idx = config := by
          simpa [hs, freshConfig, chain] using he.symm
        exact ⟨hc.symm, h.put_config hc⟩

/-- A use of the lookups. -/
inductive ConfigCall (S C : Type) where
  | toIdx (script : Option S) (c : C)
  | toConfig (script : Option S) (idx : Int)

/-- The memo tables after one use. -/
def lookupStep (d : ReplicationData S) (k : FieldKind C) (cache : ConfigCache S C) :
    ConfigCall S C → ConfigCache S C
  | .toIdx script c => (d.objectToIdx k cache script c).2
  | .toConfig script idx => (d.objectIdxTo k cache script idx).2

/-- The memo tables after any uses since the program started. -/
def cacheAfter (d : ReplicationData S) (k : FieldKind C) (calls : List (ConfigCall S C)) :
    ConfigCache S C :=
  Runs.run (lookupStep d k) .empty calls

theorem lookupStep_sound (h : CacheSound d k cache) (call : ConfigCall S C) :
    CacheSound d k (lookupStep d k cache call) := by
  cases call with
  | toIdx script c => exact (objectToIdx_spec script c h).2
  | toConfig script idx => exact (objectIdxTo_spec h).2

theorem cacheAfter_sound (calls : List (ConfigCall S C)) :
    CacheSound d k (cacheAfter d k calls) :=
  (Runs.always_of_step (P := CacheSound d k) (fun _ call h => lookupStep_sound h call)
    .empty calls).last

/-- The first script along the chain that has a config of this name has the config itself. -/
def OwnNamesake (d : ReplicationData S) (k : FieldKind C) (script : Option S) (c : C) : Prop :=
  ∀ sr, (d.getAllScriptReplications script).find? (fun sr => (k.configs sr).any
    (fun m => k.name m = k.name c)) = some sr → c ∈ k.configs sr

omit [DecidableEq S] [DecidableEq C] in
theorem hasConfig_eq_any (sr : ScriptReplication) (c : C) :
    sr.hasConfig k c = (k.configs sr).any (fun m => k.name m = k.name c) := by
  rw [Bool.eq_iff_iff, ScriptReplication.hasConfig_iff]
  simp

omit [DecidableEq S] in
/-- A config of the chain comes back from its index exactly when no script further down the
chain has another config of its name. -/
theorem fresh_inverse_iff (hc : c ∈ (d.chain k script).flatten) :
    (0 ≤ d.freshIdx k script c ∧ d.freshConfig k script (d.freshIdx k script c) = some c) ↔
      OwnNamesake d k script c := by
  have hex : ∃ sr ∈ d.getAllScriptReplications script, sr.hasConfig k c = true := by
    obtain ⟨cs, hcs, hm⟩ := List.mem_flatten.1 hc
    obtain ⟨sr, hsr, rfl⟩ := List.mem_map.1 hcs
    exact ⟨sr, hsr, ScriptReplication.hasConfig_of_mem k hm⟩
  obtain ⟨pre, sr, post, hall, hpre, hsr⟩ := Segments.exists_first _ hex
  have hidx : d.freshIdx k script c =
      (pre.map k.configs).flatten.length + sr.getIdxFromConfig k c := by
    rw [freshIdx, searchIdx_eq, hall, Segments.locate_first hpre hsr]
    simp
  have hchain : d.chain k script = pre.map k.configs ++ (k.configs sr :: post.map k.configs) := by
    simp [chain, hall]
  have hfirst : (d.getAllScriptReplications script).find? (fun sr => (k.configs sr).any
      (fun m => k.name m = k.name c)) = some sr := by
    simp only [← hasConfig_eq_any, hall]
    rw [List.find?_append, List.find?_eq_none.2 (by simpa using hpre)]
    simp [hsr]
  have hown : OwnNamesake d k script c ↔ c ∈ k.configs sr := by
    simp only [OwnNamesake, hfirst, Option.some.injEq]
    exact ⟨fun h => h sr rfl, fun h _ he => he ▸ h⟩
  rw [hown, hidx]
  constructor
  · rintro ⟨h0, hf⟩
    by_contra hn
    -- the lookup by identity fails, so the index is that of the field just before this script
    rw [ScriptReplication.getIdxFromConfig_of_not_mem k hn] at h0 hf
    obtain ⟨n, hn'⟩ : ∃ n, (pre.map k.configs).flatten.length = n + 1 :=
      ⟨(pre.map k.configs).flatten.length - 1, by omega⟩
    have hcast : (((pre.map k.configs).flatten.length : Nat) : Int) + -1 = (n : Nat) := by omega
    rw [freshConfig, hcast, Segments.fetch_natCast, hchain, List.flatten_append,
      List.getElem?_append_left (by omega)] at hf
    obtain ⟨cs, hcs, hm⟩ := List.mem_flatten.1 (List.mem_of_getElem? hf)
    obtain ⟨p, hp, rfl⟩ := List.mem_map.1 hcs
    have hp' := hpre p hp
    rw [ScriptReplication.hasConfig_of_mem k hm] at hp'
    cases hp'
  · intro hm
    obtain ⟨i, hi, hget⟩ := ScriptReplication.getIdxFromConfig_of_mem k hm
    obtain ⟨hlt, _⟩ := List.getElem?_eq_some_iff.1 hget
    rw [hi]
    refine ⟨by omega, ?_⟩
    rw [freshConfig, hchain, Segments.fetch_append_offset _ _ _ (by omega),
      Segments.fetch_natCast, List.flatten_cons, List.getElem?_append_left hlt, hget]

/-- The chain has one config of this name, in one place. -/
def OccursOnce (d : ReplicationData S) (k : FieldKind C) (script : Option S) (c : C) : Prop :=
  (d.chain k script).flatten.filter (fun m => k.name m = k.name c) = [c]

omit [DecidableEq S] [DecidableEq C] in
theorem OccursOnce.eq_of_name (h : OccursOnce d k script c)
    (hsr : sr ∈ d.getAllScriptReplications script) (hm : m ∈ k.configs sr)
    (hn : k.name m = k.name c) : m = c := by
  have hf : m ∈ (d.chain k script).flatten.filter (fun m => k.name m = k.name c) := by
    rw [List.mem_filter, decide_eq_true_eq]
    exact ⟨List.mem_flatten.2 ⟨_, List.mem_map_of_mem hsr, hm⟩, hn⟩
  rw [show (d.chain k script).flatten.filter _ = [c] from h] at hf
  exact List.mem_singleton.1 hf

omit [DecidableEq S] [DecidableEq C] in
theorem OccursOnce.mem (h : OccursOnce d k script c) : c ∈ (d.chain k script).flatten := by
  have hf : c ∈ (d.chain k script).flatten.filter (fun m => k.name m = k.name c) := by
    rw [show (d.chain k script).flatten.filter _ = [c] from h]
    exact List.mem_singleton_self c
  exact (List.mem_filter.1 hf).1

omit [DecidableEq S] [DecidableEq C] in
theorem OccursOnce.objectToConfig (h : OccursOnce d k script c) :
    d.objectToConfig k script (k.name c) = some c := by
  have hget {sr : ScriptReplication} {m : C} (hsr : sr ∈ d.getAllScriptReplications script)
      (hm : sr.getConfig k (k.name c) = some m) : m = c := by
    have hpair := Dict.mem_of_get?_ofPairs _ hm
    obtain ⟨m', hm', he⟩ := List.mem_map.1 hpair
    obtain ⟨hn, rfl⟩ := Prod.mk.inj he
    exact h.eq_of_name hsr hm' hn
  unfold ReplicationData.objectToConfig
  cases hf : (d.getAllScriptReplications script).findSome?
      (fun sr => sr.getConfig k (k.name c)) with
  | none =>
    obtain ⟨cs, hcs, hm⟩ := List.mem_flatten.1 h.mem
    obtain ⟨sr, hsr, rfl⟩ := List.mem_map.1 hcs
    have hnone := List.findSome?_eq_none_iff.1 hf sr hsr
    have hhas := ScriptReplication.hasConfig_of_mem k hm
    rw [ScriptReplication.hasConfig, decide_eq_true_eq, Dict.mem_iff_get?] at hhas
    obtain ⟨m, hm⟩ := hhas
    rw [ScriptReplication.getConfig, hm] at hnone
    cases hnone
  | some m =>
    obtain ⟨sr, hsr, hm⟩ := List.exists_of_findSome?_eq_some hf
    rw [hget hsr hm]

omit [DecidableEq S] in
theorem OccursOnce.inverse (h : OccursOnce d k script c) : 0 ≤ d.freshIdx k script c ∧
    d.freshConfig k script (d.freshIdx k script c) = some c := by
  have hown : OwnNamesake d k script c := by
    intro sr hsr
    have hany := List.find?_some hsr
    obtain ⟨m, hm, hn⟩ := List.any_eq_true.1 hany
    rw [decide_eq_true_eq] at hn
    exact h.eq_of_name (List.mem_of_find?_eq_some hsr) hm hn ▸ hm
  exact (fresh_inverse_iff h.mem).2 hown

omit [DecidableEq S] [DecidableEq C] in
theorem getConfig_eq_some {sr : ScriptReplication} (h : sr.getConfig k name = some c) :
    c ∈ k.configs sr ∧ k.name c = name := by
  obtain ⟨m, hm, he⟩ := List.mem_map.1 (Dict.mem_of_get?_ofPairs _ h)
  obtain ⟨hn, rfl⟩ := Prod.mk.inj he
  exact ⟨hm, hn⟩

omit [DecidableEq S] in
theorem objectToConfig_inverse (h : d.objectToConfig k script name = some c) :
    k.name c = name ∧ d.freshConfig k script (d.freshIdx k script c) = some c := by
  obtain ⟨pre, sr, post, hall, hsr, hpre⟩ := List.findSome?_eq_some_iff.1 h
  obtain ⟨hmem, rfl⟩ := getConfig_eq_some hsr
  refine ⟨rfl, ((fresh_inverse_iff ?_).2 ?_).2⟩
  · rw [ReplicationData.chain, hall, List.mem_flatten]
    exact ⟨k.configs sr, by simp, hmem⟩
  · intro sr' hfind
    have hskip : ∀ x ∈ pre, ¬ (k.configs x).any (fun m => k.name m = k.name c) = true := by
      intro x hx hany
      rw [← hasConfig_eq_any, ScriptReplication.hasConfig, decide_eq_true_eq,
        Dict.mem_iff_get?] at hany
      obtain ⟨m, hm⟩ := hany
      have hnone := hpre x hx
      rw [ScriptReplication.getConfig, hm] at hnone
      cases hnone
    have hself : (k.configs sr).any (fun m => k.name m = k.name c) = true :=
      List.any_eq_true.2 ⟨c, hmem, decide_eq_true rfl⟩
    rw [hall, List.find?_append, List.find?_eq_none.2 hskip, Option.none_or, List.find?_cons,
      hself] at hfind
    cases hfind
    exact hmem

/-- An index names one config over the whole chain, and the memo tables do not matter. -/
structure WireInverse (toIdx : ConfigCache S C → Option S → C → Int × ConfigCache S C)
    (toConfig : ConfigCache S C → Option S → Int → Option C × ConfigCache S C)
    (cache : ConfigCache S C) (script : Option S) (configs : List C) : Prop where
  round_trip : ∀ c ∈ configs, 0 ≤ (toIdx cache script c).1 ∧
    (toConfig (toIdx cache script c).2 script (toIdx cache script c).1).1 = some c
  injective : ∀ c ∈ configs, ∀ c' ∈ configs,
    (toIdx cache script c).1 = (toIdx cache script c').1 → c = c'
  idx_cached : ∀ c, (toIdx cache script c).1 = (toIdx .empty script c).1
  config_cached : ∀ idx, (toConfig cache script idx).1 = (toConfig .empty script idx).1

theorem wireInverse_iff (h : CacheSound d k cache) :
    WireInverse (d.objectToIdx k) (d.objectIdxTo k) cache script (d.chain k script).flatten ↔
      ∀ c ∈ (d.chain k script).flatten, OwnNamesake d k script c := by
  have hto (c : C) := objectToIdx_spec script c h
  have hround (c : C) : (d.objectIdxTo k (d.objectToIdx k cache script c).2 script
      (d.objectToIdx k cache script c).1).1 =
        d.freshConfig k script (d.freshIdx k script c) := by
    rw [(objectIdxTo_spec (hto c).2).1, (hto c).1]
  constructor
  · intro hw c hc
    have hr := hw.round_trip c hc
    rw [hround, (hto c).1] at hr
    exact (fresh_inverse_iff hc).1 hr
  · intro hown
    have hinv (c : C) (hc : c ∈ (d.chain k script).flatten) :=
      (fresh_inverse_iff hc).2 (hown c hc)
    refine ⟨fun c hc => ?_, fun c hc c' hc' he => ?_, fun c => ?_, fun idx => ?_⟩
    · rw [hround, (hto c).1]
      exact hinv c hc
    · rw [(hto c).1, (hto c').1] at he
      have h1 := (hinv c hc).2
      rw [he, (hinv c' hc').2] at h1
      exact (Option.some.inj h1).symm
    · rw [(hto c).1, (objectToIdx_spec script c .empty).1]
    · rw [(objectIdxTo_spec h).1, (objectIdxTo_spec .empty).1]

/-- For each kind of field, indices and configs correspond, after any uses of the lookups,
exactly when every config of the chain is its name's first config. -/
theorem object_index_inverse_iff (d : ReplicationData S) (script : Option S)
    (pcalls : List (ConfigCall S ReplicationPropertyConfig))
    (mcalls : List (ConfigCall S ReplicationMethodConfig))
    (scalls : List (ConfigCall S ReplicationSignalConfig)) :
    (WireInverse d.objectPropertyToIdx d.objectIdxToProperty
        (cacheAfter d propertyField pcalls) script (d.chain propertyField script).flatten ↔
      ∀ c ∈ (d.chain propertyField script).flatten, OwnNamesake d propertyField script c) ∧
    (WireInverse d.objectMethodToIdx d.objectIdxToMethod
        (cacheAfter d methodField mcalls) script (d.chain methodField script).flatten ↔
      ∀ c ∈ (d.chain methodField script).flatten, OwnNamesake d methodField script c) ∧
    (WireInverse d.objectSignalToIdx d.objectIdxToSignal
        (cacheAfter d signalField scalls) script (d.chain signalField script).flatten ↔
      ∀ c ∈ (d.chain signalField script).flatten, OwnNamesake d signalField script c) :=
  ⟨wireInverse_iff (cacheAfter_sound pcalls), wireInverse_iff (cacheAfter_sound mcalls),
    wireInverse_iff (cacheAfter_sound scalls)⟩

/-- A derived script and its base that both replicate `health`. -/
def healthTwice : ReplicationData Bool where
  scripts := {
    parent := fun s => if s then some false else none
    rank := fun s => s.toNat
    rank_lt := fun {a b} h => by cases a <;> cases b <;> simp_all }
  scriptReplicationMap := fun s =>
    some { propertyConfig := [{ instanceId := s.toNat, name := "health" }] }

/-- The base script's `health` gets the index `-1` on an object with the derived script. -/
theorem object_index_inverse_fails :
    ({ instanceId := 0, name := "health" } : ReplicationPropertyConfig) ∈
        (healthTwice.chain propertyField (some true)).flatten ∧
      (healthTwice.objectPropertyToIdx .empty (some true)
        { instanceId := 0, name := "health" }).1 = -1 ∧
      ¬ WireInverse healthTwice.objectPropertyToIdx healthTwice.objectIdxToProperty .empty
        (some true) (healthTwice.chain propertyField (some true)).flatten := by
  have hm : ({ instanceId := 0, name := "health" } : ReplicationPropertyConfig) ∈
      (healthTwice.chain propertyField (some true)).flatten := by decide
  refine ⟨hm, by decide, fun h => ?_⟩
  have hr := (h.round_trip _ hm).1
  revert hr
  decide

end ReplicationData

end Godaemon
