import Mathlib.Data.List.Basic
import Mathlib.Logic.Function.Basic
import Godaemon.Lib.Runs
import Godaemon.Lib.Dict
import Godaemon.Util.Variant

namespace Godaemon
set_option autoImplicit true

/-- The values of an object's properties. -/
abbrev Properties := Dict String Variant

/-- A folder of files below `user://`, and the engine's serializer as far as it is used. -/
structure TextDb where
  folderName : String
  varToBytes : Properties → List UInt8
  bytesToVar : List UInt8 → Properties

/-- Of slashes in a row one is left. -/
def collapseSlashes : List Char → List Char
  | [] => []
  | c :: cs =>
    if c = '/' ∧ cs.head? = some '/' then collapseSlashes cs else c :: collapseSlashes cs

/-- The file that a path names: paths that differ in repeated slashes only name the same. -/
def fileAt (path : String) : List Char := collapseSlashes path.toList

/-- What the files contain. -/
abbrev Files := List Char → Option (List UInt8)

namespace TextDb

variable (db : TextDb)

def getDirectory (collection : String) : String :=
  "user://" ++ db.folderName ++ "/" ++ collection ++ "/"

def getFilePath (collection key : String) : String :=
  db.getDirectory collection ++ "/" ++ key

/-- The file of a pair of names. -/
def file (collection key : String) : List Char := fileAt (db.getFilePath collection key)

/-- Write a file, unless the file system does not make the directory or does not open the file. -/
def write (collection key : String) (properties : Properties) (dirMade opens : Bool)
    (files : Files) : Files :=
  if !dirMade then files
  else if !opens then files
  else Function.update files (db.file collection key) (some (db.varToBytes properties))

/-- Read a file, `none` when the script fails on one that is there and is not opened. -/
def read (collection key : String) (opens : Bool) (files : Files) : Option Properties :=
  match files (db.file collection key) with
  | none => some .empty
  | some buffer =>
    if !opens then none
    else if buffer = [] then some .empty
    else some (db.bytesToVar buffer)

end TextDb

/-- A call, with what the file system answers. -/
inductive DbCall where
  | write (collection key : String) (properties : Properties) (dirMade opens : Bool)
  | read (collection key : String) (opens : Bool)

/-- The files, the map that they stand for, and the pair that each file was last written for. -/
structure DbRun where
  files : Files
  records : String × String → Properties
  writer : List Char → Option (String × String)

namespace DbCall

/-- The file system does what it is asked. -/
def Accepted : DbCall → Prop
  | .write _ _ _ dirMade opens => dirMade = true ∧ opens = true
  | .read _ _ opens => opens = true

def pair : DbCall → String × String
  | .write collection key _ _ _ => (collection, key)
  | .read collection key _ => (collection, key)

/-- What is written can be read again: the serializer gives it back, and writes something. -/
def Stores (db : TextDb) : DbCall → Prop
  | .write _ _ properties _ _ =>
    db.bytesToVar (db.varToBytes properties) = properties ∧ db.varToBytes properties ≠ []
  | .read _ _ _ => True

end DbCall

namespace DbRun

def start : DbRun := ⟨fun _ => none, fun _ => .empty, fun _ => none⟩

def step (db : TextDb) (s : DbRun) : DbCall → DbRun
  | .write collection key properties dirMade opens =>
    { files := db.write collection key properties dirMade opens s.files
      records := Function.update s.records (collection, key) properties
      writer := Function.update s.writer (db.file collection key) (some (collection, key)) }
  | .read _ _ _ => s

/-- A read gives the properties that the map has for the pair. -/
def ReadsRecord (db : TextDb) (s : DbRun) : DbCall → Prop
  | .read collection key opens =>
    db.read collection key opens s.files = some (s.records (collection, key))
  | _ => True

/-- The file that a read is from was last written for a pair with the same properties. -/
def Unshared (db : TextDb) (s : DbRun) : DbCall → Prop
  | .read collection key _ => ∀ pair, s.writer (db.file collection key) = some pair →
    s.records pair = s.records (collection, key)
  | _ => True

/-- The files hold the properties of the pairs that they were last written for. -/
structure Holds (db : TextDb) (s : DbRun) : Prop where
  unwritten : ∀ file, s.writer file = none → s.files file = none
  written : ∀ file pair, s.writer file = some pair → db.file pair.1 pair.2 = file ∧
    ∃ buffer, s.files file = some buffer ∧ buffer ≠ [] ∧
      db.bytesToVar buffer = s.records pair
  absent : ∀ collection key, s.writer (db.file collection key) = none →
    s.records (collection, key) = .empty

variable {db : TextDb} {s : DbRun} {call : DbCall}

theorem holds_start : Holds db start :=
  ⟨fun _ _ => rfl, fun _ _ h => (by cases h), fun _ _ _ => rfl⟩

theorem holds_step (h : Holds db s) (ha : call.Accepted) (hstores : call.Stores db) :
    Holds db (s.step db call) := by
  cases call with
  | read collection key opens => exact h
  | write collection key properties dirMade opens =>
    obtain ⟨hinverts, hnonempty⟩ := hstores
    have hwrite : db.write collection key properties dirMade opens s.files =
        Function.update s.files (db.file collection key) (some (db.varToBytes properties)) := by
      simp only [TextDb.write, ha.1, ha.2, Bool.not_true, Bool.false_eq_true, ↓reduceIte]
    refine ⟨fun file hfile => ?_, fun file pair hfile => ?_, fun c k hfile => ?_⟩
    · simp only [step, hwrite] at hfile ⊢
      by_cases he : file = db.file collection key
      · rw [he, Function.update_self] at hfile
        cases hfile
      · rw [Function.update_of_ne he] at hfile ⊢
        exact h.unwritten file hfile
    · simp only [step, hwrite] at hfile ⊢
      by_cases he : file = db.file collection key
      · rw [he, Function.update_self] at hfile
        cases hfile
        rw [he, Function.update_self, Function.update_self]
        exact ⟨rfl, _, rfl, hnonempty, hinverts⟩
      · rw [Function.update_of_ne he] at hfile ⊢
        obtain ⟨hpair, hbuffer⟩ := h.written file pair hfile
        have hne : pair ≠ (collection, key) := by
          intro hp
          rw [hp] at hpair
          exact he hpair.symm
        rw [Function.update_of_ne hne]
        exact ⟨hpair, hbuffer⟩
    · simp only [step] at hfile ⊢
      by_cases he : db.file c k = db.file collection key
      · rw [he, Function.update_self] at hfile
        cases hfile
      · rw [Function.update_of_ne he] at hfile
        have hne : (c, k) ≠ (collection, key) := by
          intro hp
          cases hp
          exact he rfl
        rw [Function.update_of_ne hne]
        exact h.absent c k hfile

theorem readsRecord_iff (h : Holds db s) (ha : call.Accepted) :
    s.ReadsRecord db call ↔ s.Unshared db call := by
  cases call with
  | write collection key properties dirMade opens => exact Iff.rfl
  | read collection key opens =>
    have hopens : opens = true := ha
    simp only [ReadsRecord, Unshared, TextDb.read]
    cases hwriter : s.writer (db.file collection key) with
    | none =>
      simp only [h.unwritten _ hwriter, h.absent collection key hwriter]
      exact iff_of_true trivial (fun _ hp => by cases hp)
    | some pair =>
      obtain ⟨_, buffer, hfile, hnonempty, hbuffer⟩ := h.written _ pair hwriter
      simp only [hfile, hopens, Bool.not_true, Bool.false_eq_true, ↓reduceIte, hnonempty, hbuffer,
        Option.some.injEq, forall_eq']

/-- The database answers as the map from pairs of names to properties exactly if, whenever a pair
is read, the last write to its file was for a pair with the same properties. -/
theorem textDb_refines_iff (db : TextDb) (calls : List DbCall)
    (haccepted : ∀ call ∈ calls, call.Accepted) (hstores : ∀ call ∈ calls, call.Stores db) :
    Runs.Guarded (step db) (ReadsRecord db) start calls ↔
      Runs.Guarded (step db) (Unshared db) start calls := by
  have hrun (s : DbRun) (hs : Holds db s) : Runs.Guarded (step db) (ReadsRecord db) s calls ↔
      Runs.Guarded (step db) (Unshared db) s calls := by
    induction calls generalizing s with
    | nil => exact Iff.rfl
    | cons call calls ih =>
      have hcall := List.mem_cons_self (a := call) (l := calls)
      apply and_congr (readsRecord_iff hs (haccepted call hcall))
      apply ih (fun c hc => haccepted c (List.mem_cons_of_mem _ hc))
        (fun c hc => hstores c (List.mem_cons_of_mem _ hc))
      exact holds_step hs (haccepted call hcall) (hstores call hcall)
  exact hrun start holds_start

end DbRun

/-- A name that is not empty and has no slash. -/
def PlainName (name : String) : Prop := '/' ∉ name.toList ∧ name.toList ≠ []

instance (name : String) : Decidable (PlainName name) := inferInstanceAs (Decidable (_ ∧ _))

theorem head?_ne_slash {cs : List Char} (h : '/' ∉ cs) : cs.head? ≠ some '/' := by
  intro he
  exact h (List.mem_of_mem_head? he)

theorem collapseSlashes_append {name : List Char} (h : '/' ∉ name) (cs : List Char) :
    collapseSlashes (name ++ cs) = name ++ collapseSlashes cs := by
  induction name with
  | nil => rfl
  | cons c name ih =>
    rw [List.mem_cons, not_or] at h
    rw [List.cons_append, collapseSlashes, if_neg (fun hc => h.1 hc.1.symm), ih h.2,
      List.cons_append]

theorem collapseSlashes_directory (directory : List Char) {cs : List Char}
    (h : cs.head? ≠ some '/') :
    collapseSlashes (directory ++ cs) = collapseSlashes directory ++ collapseSlashes cs := by
  induction directory with
  | nil => rfl
  | cons c directory ih =>
    have hhead : (directory ++ cs).head? = some '/' ↔ directory.head? = some '/' := by
      cases directory with
      | nil => exact iff_of_false h (fun he => by cases he)
      | cons d directory => exact Iff.rfl
    simp only [List.cons_append, collapseSlashes, hhead, ih]
    split
    · rfl
    · rfl

namespace TextDb

variable {db : TextDb}

theorem file_of_plain (hc : PlainName collection) (hk : PlainName key) :
    db.file collection key = collapseSlashes ("user://" ++ db.folderName ++ "/").toList ++
      (collection.toList ++ '/' :: key.toList) := by
  have hpath : (db.getFilePath collection key).toList =
      ("user://" ++ db.folderName ++ "/").toList ++
        (collection.toList ++ '/' :: '/' :: key.toList) := by
    simp [getFilePath, getDirectory]
  have hhead : (collection.toList ++ '/' :: '/' :: key.toList).head? ≠ some '/' := by
    rw [List.head?_append_of_ne_nil _ hc.2]
    exact head?_ne_slash hc.1
  have hkey : collapseSlashes key.toList = key.toList := by
    have h := collapseSlashes_append hk.1 []
    rwa [List.append_nil, collapseSlashes, List.append_nil] at h
  rw [file, fileAt, hpath, collapseSlashes_directory _ hhead, collapseSlashes_append hc.1]
  simp only [collapseSlashes, List.head?_cons, and_self, ↓reduceIte, head?_ne_slash hk.1, and_false,
    hkey]

theorem file_inj_of_plain (hc : PlainName collection) (hk : PlainName key)
    (hc' : PlainName collection') (hk' : PlainName key')
    (h : db.file collection key = db.file collection' key') :
    collection = collection' ∧ key = key' := by
  rw [file_of_plain hc hk, file_of_plain hc' hk'] at h
  obtain ⟨hcollection, _, hkey⟩ :=
    (List.append_cons_inj_of_notMem hc.1 hk.1).1 (List.append_cancel_left h)
  exact ⟨String.toList_inj.1 hcollection, String.toList_inj.1 hkey⟩

end TextDb

namespace DbRun

variable {db : TextDb}

/-- Among plain names the database is that map. -/
theorem unshared_of_plain (calls : List DbCall)
    (hplain : ∀ call ∈ calls, PlainName call.pair.1 ∧ PlainName call.pair.2) :
    Runs.Guarded (step db) (Unshared db) start calls := by
  have hrun (s : DbRun) (hs : ∀ file pair, s.writer file = some pair →
      db.file pair.1 pair.2 = file ∧ PlainName pair.1 ∧ PlainName pair.2) :
      Runs.Guarded (step db) (Unshared db) s calls := by
    induction calls generalizing s with
    | nil => trivial
    | cons call calls ih =>
      obtain ⟨hc, hk⟩ := hplain call List.mem_cons_self
      have ih := ih (fun c hmem => hplain c (List.mem_cons_of_mem _ hmem))
      cases call with
      | read collection key opens =>
        refine ⟨fun pair hpair => ?_, ih s hs⟩
        obtain ⟨hfile, hc', hk'⟩ := hs _ pair hpair
        obtain ⟨hcollection, hkey⟩ := TextDb.file_inj_of_plain hc' hk' hc hk hfile
        exact congrArg s.records (Prod.ext hcollection hkey)
      | write collection key properties dirMade opens =>
        refine ⟨trivial, ih _ fun file pair hpair => ?_⟩
        simp only [step] at hpair
        by_cases he : file = db.file collection key
        · rw [he, Function.update_self] at hpair
          cases hpair
          exact ⟨he.symm, hc, hk⟩
        · rw [Function.update_of_ne he] at hpair
          exact hs file pair hpair
  exact hrun start (fun _ _ h => by cases h)

end DbRun

/-- The engine's encoding of a short string. -/
def encodeShortString (s : String) : List UInt8 :=
  Bytes.encode 4 4 ++ (Bytes.encode 4 s.toList.length ++
    (s.toList.map (fun c => UInt8.ofNat c.toNat) ++
      List.replicate ((4 - s.toList.length % 4) % 4) 0))

def decodeShortString (data : List UInt8) : String × List UInt8 :=
  let length := Bytes.decode ((data.drop 4).take 4)
  (String.ofList (((data.drop 8).take length).map (fun b => Char.ofNat b.toNat)),
    data.drop (8 + length + (4 - length % 4) % 4))

def decodeSmallEntries : Nat → List UInt8 → List (String × Variant)
  | 0, _ => []
  | k + 1, data =>
    let (name, data) := decodeShortString data
    (name, .int (Bytes.signed 4 (Bytes.decode ((data.drop 4).take 4)))) ::
      decodeSmallEntries k (data.drop 8)

/-- The part of the engine's serializer that handles integers of 32 bits under short names. -/
def heroDb : TextDb where
  folderName := "db"
  varToBytes properties :=
    Bytes.encode 4 65563 ++ (Bytes.encode 4 4 ++ (Bytes.encode 4 properties.size ++
      properties.entries.flatMap (fun e => encodeShortString e.1 ++ encodeSmallInt e.2)))
  bytesToVar data :=
    .ofPairs (decodeSmallEntries (Bytes.decode ((data.drop 8).take 4)) (data.drop 12))

def hpOf (hp : Int) : Properties := .ofPairs [("hp", .int hp)]

namespace DbRun

def writeHp (collection key : String) (hp : Int) : DbCall :=
  .write collection key (hpOf hp) true true

theorem heroDb_stores (collection key : String) :
    (writeHp collection key 5).Stores heroDb ∧ (writeHp collection key 7).Stores heroDb :=
  ⟨⟨rfl, by decide⟩, rfl, by decide⟩

def annAndBob : List DbCall :=
  [writeHp "players" "ann" 5, writeHp "players" "bob" 7, .read "players" "ann" true]

/-- What has been written for Ann is read for Ann. -/
theorem heroDb_reads_ann : Runs.Guarded (step heroDb) (ReadsRecord heroDb) start annAndBob := by
  have hunshared : Runs.Guarded (step heroDb) (Unshared heroDb) start annAndBob := by
    apply unshared_of_plain
    simp only [annAndBob, List.forall_mem_cons, List.not_mem_nil, false_implies, implies_true,
      and_true]
    exact ⟨⟨by decide, by decide⟩, ⟨by decide, by decide⟩, by decide, by decide⟩
  refine (textDb_refines_iff heroDb annAndBob ?_ ?_).2 hunshared
  · simp only [annAndBob, List.forall_mem_cons, List.not_mem_nil, false_implies, implies_true,
      and_true]
    exact ⟨⟨rfl, rfl⟩, ⟨rfl, rfl⟩, rfl⟩
  · simp only [annAndBob, List.forall_mem_cons, List.not_mem_nil, false_implies, implies_true,
      and_true]
    exact ⟨(heroDb_stores _ _).1, (heroDb_stores _ _).2, trivial⟩

def slashed : List DbCall :=
  [writeHp "a/b" "c" 5, writeHp "a" "b/c" 7, .read "a/b" "c" true]

/-- Two pairs of names are one path, and the second write takes the place of the first. -/
theorem written_for_another_pair :
    (∀ call ∈ slashed, call.Accepted ∧ call.Stores heroDb) ∧
      ¬ Runs.Guarded (step heroDb) (ReadsRecord heroDb) start slashed := by
  constructor
  · simp only [slashed, List.forall_mem_cons, List.not_mem_nil, false_implies, implies_true,
      and_true]
    exact ⟨⟨⟨rfl, rfl⟩, (heroDb_stores _ _).1⟩, ⟨⟨rfl, rfl⟩, (heroDb_stores _ _).2⟩, rfl, trivial⟩
  · intro h
    have hsame : heroDb.file "a" "b/c" = heroDb.file "a/b" "c" := by decide
    have hfile : (Runs.run (step heroDb) start
        [writeHp "a/b" "c" 5, writeHp "a" "b/c" 7]).files (heroDb.file "a/b" "c") =
          some (heroDb.varToBytes (hpOf 7)) := by
      rw [← hsame]
      simp only [Runs.run_cons, Runs.run_nil, step, writeHp, TextDb.write, Bool.not_true,
        Bool.false_eq_true, ↓reduceIte, Function.update_self]
    have hread : heroDb.read "a/b" "c" true (Runs.run (step heroDb) start
        [writeHp "a/b" "c" 5, writeHp "a" "b/c" 7]).files = some (hpOf 5) := h.2.2.1
    rw [TextDb.read, hfile] at hread
    have hhp : (hpOf 7).get? "hp" = (hpOf 5).get? "hp" :=
      congrArg (fun p : Properties => p.get? "hp") (Option.some.inj hread)
    cases hhp

end DbRun

end Godaemon
