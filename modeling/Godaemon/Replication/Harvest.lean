import Godaemon.Lib.Bytes
import Godaemon.Util.Variant
import Godaemon.Tree
import Godaemon.Replication.Data

namespace Godaemon
set_option autoImplicit true

namespace ReplicationData

variable {S : Type} (d : ReplicationData S)

/-- The property configs along a script's inheritance chain, in replication order. -/
def propertyConfigs (script : Option S) : List ReplicationPropertyConfig :=
  (d.getAllScriptReplications script).flatMap (fun sr => sr.propertyConfig)

/-- Is the property left out of what a peer is given? Peer 0 stands for everyone. -/
def skips (nodeOwner peer : Int) (config : ReplicationPropertyConfig) : Bool :=
  !config.canTheyRecv nodeOwner peer && peer ≠ 0

/-- Harvest the property values of an object for a target peer. -/
def getObjectPropertyValues (nodeOwner : Int) (script : Option S) (get : String → Variant)
    (peer : Int) : List Variant :=
  ((d.propertyConfigs script).filter (fun config => !skips nodeOwner peer config)).map
    (fun config => get config.name)

/-- How far an application of values came: the properties set so far, the index last used, and
whether every index lay within the list. -/
structure Applied where
  sets : List (String × Variant)
  trueIdx : Int
  inBounds : Bool

def applyLoop (nodeOwner peer : Int) (values : List Variant) :
    List ReplicationPropertyConfig → List (String × Variant) → Int → Applied
  | [], sets, trueIdx => ⟨sets, trueIdx, true⟩
  | config :: configs, sets, trueIdx =>
    if skips nodeOwner peer config then applyLoop nodeOwner peer values configs sets trueIdx
    else
      match values[(trueIdx + 1).toNat]? with
      | some value =>
        applyLoop nodeOwner peer values configs (sets ++ [(config.name, value)]) (trueIdx + 1)
      | none => ⟨sets, trueIdx + 1, false⟩

/-- Apply harvested values to an object, for the local peer. -/
def applyObjectPropertyValues (nodeOwner : Int) (script : Option S) (values : List Variant)
    (localPeer : Int) : Applied :=
  applyLoop nodeOwner localPeer values (d.propertyConfigs script) [] (-1)

/-- The names of the properties that a receive flag admits, in replication order. -/
def admittedNames (configs : List ReplicationPropertyConfig) (filter : Filter) : List String :=
  (configs.filter (fun config => config.getRecvFilterFlag filter)).map (fun config => config.name)

def admitted (script : Option S) (filter : Filter) : List String :=
  admittedNames (d.propertyConfigs script) filter

variable {d}

theorem skips_client (p : ClientPeer) (c : ReplicationPropertyConfig) :
    skips o p c = !c.getRecvFilterFlag (ReplicationConfigBase.filterOf o p) := by
  have h : (p : Int) ≠ 0 := by
    have := p.one_lt
    omega
  simp [skips, h, ReplicationConfigBase.canTheyRecv]

theorem getObjectPropertyValues_client (p : ClientPeer) (script : Option S) (o : Int)
    (get : String → Variant) :
    d.getObjectPropertyValues o script get p =
      (d.admitted script (ReplicationConfigBase.filterOf o p)).map get := by
  simp only [getObjectPropertyValues, admitted, admittedNames, skips_client, Bool.not_not,
    List.map_map]
  rfl

theorem applyLoop_spec (p : ClientPeer) (configs : List ReplicationPropertyConfig)
    (pre rest : List Variant) (sets : List (String × Variant)) {names : List String}
    (hnames : admittedNames configs (ReplicationConfigBase.filterOf o p) = names) :
    (applyLoop o p (pre ++ rest) configs sets (pre.length - 1)).sets = sets ++ names.zip rest ∧
      ((applyLoop o p (pre ++ rest) configs sets (pre.length - 1)).inBounds = true ↔
        names.length ≤ rest.length) ∧
      (names.length ≤ rest.length →
        (applyLoop o p (pre ++ rest) configs sets (pre.length - 1)).trueIdx =
          pre.length - 1 + names.length) := by
  induction configs generalizing pre rest sets names with
  | nil =>
    subst hnames
    exact ⟨by simp [applyLoop, admittedNames], by simp [applyLoop, admittedNames],
      by simp [applyLoop, admittedNames]⟩
  | cons c configs ih =>
    cases hc : c.getRecvFilterFlag (ReplicationConfigBase.filterOf o p) with
    | false =>
      simp only [applyLoop, skips_client, hc, Bool.not_false, ↓reduceIte]
      apply ih
      simpa only [admittedNames, List.filter_cons, hc, Bool.false_eq_true, ↓reduceIte]
        using hnames
    | true =>
      have hidx : ((pre.length : Int) - 1 + 1).toNat = pre.length := by omega
      simp only [admittedNames, List.filter_cons, hc, ↓reduceIte, List.map_cons] at hnames
      subst hnames
      simp only [applyLoop, skips_client, hc, Bool.not_true, Bool.false_eq_true, ↓reduceIte, hidx]
      cases rest with
      | nil => simp
      | cons v rest =>
        have hget : (pre ++ v :: rest)[pre.length]? = some v := by simp
        have hpre : pre ++ v :: rest = (pre ++ [v]) ++ rest := by simp
        have hlen : (pre.length : Int) - 1 + 1 = ((pre ++ [v]).length : Int) - 1 := by simp
        rw [hget, hlen, hpre]
        obtain ⟨hsets, hin, hlast⟩ := ih (pre ++ [v]) rest (sets ++ [(c.name, v)]) rfl
        simp only [List.length_cons]
        refine ⟨?_, ?_, fun hle => ?_⟩
        · rw [hsets]
          simp [admittedNames]
        · rw [hin]
          simp only [admittedNames, List.length_map]
          omega
        · rw [hlast (by simpa [admittedNames] using hle)]
          simp only [List.length_append, List.length_cons, List.length_nil, admittedNames]
          omega

theorem applyObjectPropertyValues_spec (p : ClientPeer) (script : Option S)
    (values : List Variant) {names : List String}
    (hnames : d.admitted script (ReplicationConfigBase.filterOf o p) = names) :
    (d.applyObjectPropertyValues o script values p).sets = names.zip values ∧
      ((d.applyObjectPropertyValues o script values p).inBounds = true ↔
        names.length ≤ values.length) ∧
      (names.length ≤ values.length →
        (d.applyObjectPropertyValues o script values p).trueIdx + 1 = names.length) := by
  obtain ⟨hsets, hin, hlast⟩ := applyLoop_spec p (d.propertyConfigs script) [] values [] hnames
  refine ⟨hsets, hin, fun hle => ?_⟩
  have h : (d.applyObjectPropertyValues o script values p).trueIdx = -1 + names.length := hlast hle
  omega

/-- Values harvested under one list of names and applied under another reach their own names,
whatever the values are, only if the lists agree. -/
theorem names_eq_of_zip (as bs : List String) (hlen : as.length = bs.length)
    (h : ∀ get : String → Variant, ∀ w ∈ bs.zip (as.map get), w.2 = get w.1) : as = bs := by
  induction as generalizing bs with
  | nil => exact (List.length_eq_zero_iff.1 hlen.symm).symm
  | cons a as ih =>
    cases bs with
    | nil => simp at hlen
    | cons b bs =>
      have ht := ih bs (by simpa using hlen) (fun get w hw => h get w (by simp [hw]))
      have hb := h (fun x => if x = b then .int 1 else .int 0) (b, if a = b then .int 1 else .int 0)
        (by simp)
      have hab : a = b := by
        by_contra hne
        simp [hne] at hb
      rw [hab, ht]

end ReplicationData

end Godaemon
