import HLsm.VersionEdit
import HLsm.Lib.BinarySearch

/-!
# `db/version_set.cc`: a version and its read path

A `Version` is the list of table files of every level (`files_`: sixteen levels
for the primary version, `kNumLazyLevels` for the lazy one), the file its reads
nominated for a seek compaction, and the level `Finalize` picked for the next
size compaction with its score.

The read path is modelled down to the table.  A table file is the list of the
entries it was built from, in internal-key order, and `TableCache::Get` calls
`SaveValue` on the first entry at or after the lookup key: the filter never
rejects a key the table holds, and an index separator never falls between a
key and the first entry at or after it, so this is the entry
`Table::InternalGet` hands to the saver.

`GetStats` names the file `Get` read first, when it had to read a second one,
by its level and number.  The source passes a pointer to the `FileMetaData`
object; the caller (`DBImpl::Get`) charges the seek to that object in
whichever version served the read, and `UpdateStats` then compares its counter
against the primary version's `file_to_compact_`.

Results:
* `get_eq_of_layout`: what `Get` returns depends on the numbers and key ranges
  of the files only, not on their seek counters.
-/

set_option autoImplicit false

namespace HLsm

open HLsm.Coding HLsm.Format

/-! ## Status -/

/-- `leveldb::Status`: its code and the text the source gives it.  Bytes the
source appends to a message (a user key, a comparator name) are left out. -/
inductive Status where
  | ok
  | notFound (msg : String)
  | corruption (msg : String)
  | invalidArgument (msg : String)
  | ioError (msg : String)
  deriving DecidableEq, Repr

/-- `Status::ok`. -/
def Status.isOk : Status → Bool
  | .ok => true
  | _ => false

@[simp] theorem Status.isOk_eq_true {s : Status} : s.isOk = true ↔ s = .ok := by
  cases s <;> simp [Status.isOk]

/-! ## Versions -/

def kMaxGrandParentOverlapBytes : Nat := 10 * kTargetFileSize

def kExpandedCompactionByteSizeLimit : Nat := 25 * kTargetFileSize

/-- The fields of `Version` that the modelled functions read; `level_num_` is
the length of `files`. -/
structure Version where
  files : List (List FileMetaData)
  fileToCompact : Option FileMetaData
  fileToCompactLevel : Int
  compactionScore : ℚ
  compactionLevel : Int
  deriving DecidableEq, Repr

namespace Version

/-- `Version (vset, level)`: `level` empty levels, no seek file, score `-1`. -/
def new (levelNum : Nat) : Version :=
  ⟨List.replicate levelNum [], none, -1, -1, -1⟩

/-- `files_[level]`. -/
def levelFiles (v : Version) (level : Nat) : List FileMetaData := v.files.getD level []

def numFiles (v : Version) (level : Nat) : Nat := (v.levelFiles level).length

@[simp] theorem levelFiles_new (levelNum level : Nat) : (new levelNum).levelFiles level = [] := by
  simp only [new, levelFiles, List.getD_eq_getElem?_getD, List.getElem?_replicate]
  split <;> rfl

end Version

def totalFileSize (files : List FileMetaData) : Nat := (files.map fun f => f.fileSize.toNat).sum

/-! ## Searching a level -/

/-- `FindFile`: the first index whose file's largest key is at or after `key`,
found by the bisection of `version_set.cc`. -/
def findFile (files : List FileMetaData) (key : Bytes) : Nat :=
  BinarySearch.firstIndex (fun f => internalCompare f.largest.rep key != .lt) files

/-- `AfterFile`: a missing key is before all keys. -/
def afterFile (userKey : Option Bytes) (f : FileMetaData) : Bool :=
  match userKey with
  | none => false
  | some key => bytewiseCompare key f.largest.userKey == .gt

/-- `BeforeFile`: a missing key is after all keys. -/
def beforeFile (userKey : Option Bytes) (f : FileMetaData) : Bool :=
  match userKey with
  | none => false
  | some key => bytewiseCompare key f.smallest.userKey == .lt

def someFileOverlapsRange (disjointSortedFiles : Bool) (files : List FileMetaData)
    (smallestUserKey largestUserKey : Option Bytes) : Bool :=
  if !disjointSortedFiles then
    files.any fun f => !(afterFile smallestUserKey f || beforeFile largestUserKey f)
  else
    -- the earliest internal key of the smallest user key
    let index := match smallestUserKey with
      | none => 0
      | some key => findFile files (InternalKey.make key kMaxSequenceNumber kValueTypeForSeek).rep
    match files[index]? with
    | none => false
    | some f => !beforeFile largestUserKey f

namespace Version

def overlapInLevel (v : Version) (level : Nat) (smallestUserKey largestUserKey : Option Bytes) :
    Bool :=
  someFileOverlapsRange (level > 0) (v.levelFiles level) smallestUserKey largestUserKey

/-- One pass of `GetOverlappingInputs`'s loop over the files of a level: the
inputs it collects, or the widened range it restarts with when a level-0 file
reaches past the range. -/
def overlapPass (levelZero : Bool) (userBegin userEnd : Option Bytes) :
    List FileMetaData → List FileMetaData → List FileMetaData ⊕ (Option Bytes × Option Bytes)
  | [], inputs => .inl inputs
  | f :: rest, inputs =>
      let fileStart := f.smallest.userKey
      let fileLimit := f.largest.userKey
      let before := match userBegin with
        | some b => bytewiseCompare fileLimit b == .lt
        | none => false
      let after := match userEnd with
        | some e => bytewiseCompare fileStart e == .gt
        | none => false
      if before || after then overlapPass levelZero userBegin userEnd rest inputs
      else
        let inputs := inputs ++ [f]
        -- a level-0 file may widen the range; the scan then starts over
        match levelZero, userBegin, userEnd with
        | true, some b, _ =>
            if bytewiseCompare fileStart b == .lt then .inr (some fileStart, userEnd)
            else match userEnd with
              | some e =>
                  if bytewiseCompare fileLimit e == .gt then .inr (userBegin, some fileLimit)
                  else overlapPass levelZero userBegin userEnd rest inputs
              | none => overlapPass levelZero userBegin userEnd rest inputs
        | true, none, some e =>
            if bytewiseCompare fileLimit e == .gt then .inr (userBegin, some fileLimit)
            else overlapPass levelZero userBegin userEnd rest inputs
        | _, _, _ => overlapPass levelZero userBegin userEnd rest inputs

/-- The restarts of `GetOverlappingInputs`, at most `fuel` passes.  Every
restart moves an end of the range strictly outwards to the bound of a file of
the level, so two passes per file always suffice (`getOverlappingInputs`). -/
def overlapLoop (levelZero : Bool) (files : List FileMetaData) :
    Nat → Option Bytes → Option Bytes → List FileMetaData
  | 0, _, _ => []
  | fuel + 1, userBegin, userEnd =>
      match overlapPass levelZero userBegin userEnd files [] with
      | .inl inputs => inputs
      | .inr (userBegin', userEnd') => overlapLoop levelZero files fuel userBegin' userEnd'

/-- `GetOverlappingInputs`: the files of `level` whose user-key range meets
`[begin, end]` (a missing bound is open). -/
def getOverlappingInputs (v : Version) (level : Nat) (begin «end» : Option InternalKey) :
    List FileMetaData :=
  let files := v.levelFiles level
  overlapLoop (level == 0) files (2 * files.length + 1) (begin.map InternalKey.userKey)
    («end».map InternalKey.userKey)

/-- `PickLevelForMemTableOutput`'s loop: push the output down while the next
level does not overlap it and the level after that overlaps little of it. -/
def pickLevelLoop (v : Version) (smallestUserKey largestUserKey : Bytes) (start limit : InternalKey) :
    Nat → Nat → Nat
  | 0, level => level
  | steps + 1, level =>
      if v.overlapInLevel (level + 1) (some smallestUserKey) (some largestUserKey) then level
      else if level + 2 < v.files.length ∧
          totalFileSize (v.getOverlappingInputs (level + 2) (some start) (some limit)) >
            kMaxGrandParentOverlapBytes then level
      else pickLevelLoop v smallestUserKey largestUserKey start limit steps (level + 1)

/-- `PickLevelForMemTableOutput`, with `kMaxMemCompactLevel` from the run-time. -/
def pickLevelForMemTableOutput (rt : Runtime) (v : Version) (smallestUserKey largestUserKey : Bytes) :
    Nat :=
  if v.overlapInLevel 0 (some smallestUserKey) (some largestUserKey) then 0
  else
    pickLevelLoop v smallestUserKey largestUserKey
      (InternalKey.make smallestUserKey kMaxSequenceNumber kValueTypeForSeek)
      (InternalKey.make largestUserKey 0 .kTypeDeletion) rt.kMaxMemCompactLevel 0

end Version

/-! ## Reading a key -/

abbrev Table := List (InternalKey × Bytes)

/-- The first entry at or after `key`. -/
def Table.seek (table : Table) (key : Bytes) : Option (InternalKey × Bytes) :=
  table.find? fun entry => internalCompare entry.1.rep key != .lt

/-- What `SaveValue` leaves in the `Saver`. -/
inductive SaverState where
  | kNotFound
  | kFound
  | kDeleted
  | kCorrupt
  deriving DecidableEq, Repr

/-- `SaveValue` on an entry with internal key `ikey`, for a saver that starts
in `kNotFound`. -/
def saveValue (userKey ikey : Bytes) : SaverState :=
  match parseInternalKey ikey with
  | none => .kCorrupt
  | some parsed =>
      if bytewiseCompare parsed.userKey userKey == .eq then
        if parsed.type == .kTypeValue then .kFound else .kDeleted
      else .kNotFound

/-- `TableCache::Get` with `SaveValue`: the saver's state and the value it saw.
`tables` opens a table file by number. -/
def tableCacheGet (tables : UInt64 → Except Status Table) (f : FileMetaData) (ikey userKey : Bytes) :
    Except Status (SaverState × Bytes) :=
  match tables f.number with
  | .error s => .error s
  | .ok table =>
      match table.seek ikey with
      | none => .ok (.kNotFound, [])
      | some (key, value) => .ok (saveValue userKey key.rep, value)

/-- `Version::GetStats`: the file to charge a seek to, by level and number. -/
structure GetStats where
  seekFile : Option (Nat × UInt64)
  deriving DecidableEq, Repr

/-- The outcome of `Version::Get`: the status, the value stored on success, and
the stats. -/
structure GetResult where
  status : Status
  value : Option Bytes
  stats : GetStats
  deriving DecidableEq, Repr

/-- Insert into a list ordered by `NewestFirst` (larger numbers first). -/
def insertNewestFirst (f : FileMetaData) : List FileMetaData → List FileMetaData
  | [] => [f]
  | g :: rest => if f.number > g.number then f :: g :: rest else g :: insertNewestFirst f rest

/-- `std::sort (tmp, NewestFirst)`: files with distinct numbers, newest first. -/
def sortNewestFirst (files : List FileMetaData) : List FileMetaData :=
  files.foldr insertNewestFirst []

namespace Version

/-- The files of `level` that `Get` reads, in order: on level 0 every file whose
range holds the user key, newest first; on the other levels the one file
`FindFile` picks, if its range can hold the key. -/
def filesToSearch (v : Version) (level : Nat) (userKey ikey : Bytes) : List FileMetaData :=
  let files := v.levelFiles level
  if level = 0 then
    sortNewestFirst (files.filter fun f =>
      bytewiseCompare userKey f.smallest.userKey != .lt &&
        bytewiseCompare userKey f.largest.userKey != .gt)
  else
    match files[findFile files ikey]? with
    | none => []
    | some f => if bytewiseCompare userKey f.smallest.userKey == .lt then [] else [f]

/-- Every file `Get` may read, level by level. -/
def searchOrder (v : Version) (userKey ikey : Bytes) : List (Nat × FileMetaData) :=
  (List.range v.files.length).flatMap fun level =>
    (v.filesToSearch level userKey ikey).map fun f => (level, f)

end Version

/-- The body of `Version::Get`'s loop over the files it reads: a second read
charges the first file read. -/
def getLoop (tables : UInt64 → Except Status Table) (userKey ikey : Bytes) :
    List (Nat × FileMetaData) → Option (Nat × UInt64) → GetStats → GetResult
  | [], _, stats => ⟨.notFound "", none, stats⟩
  | (level, f) :: rest, lastFileRead, stats =>
      let stats := if stats.seekFile.isNone then ⟨lastFileRead⟩ else stats
      match tableCacheGet tables f ikey userKey with
      | .error s => ⟨s, none, stats⟩
      | .ok (.kNotFound, _) => getLoop tables userKey ikey rest (some (level, f.number)) stats
      | .ok (.kFound, value) => ⟨.ok, some value, stats⟩
      | .ok (.kDeleted, _) => ⟨.notFound "", none, stats⟩
      | .ok (.kCorrupt, _) => ⟨.corruption "corrupted key for ", none, stats⟩

namespace Version

/-- `Version::Get` for the lookup key `(userKey, snapshot)`. -/
def get (tables : UInt64 → Except Status Table) (v : Version) (userKey : Bytes)
    (snapshot : SequenceNumber) : GetResult :=
  let ikey := lookupKey userKey snapshot
  getLoop tables userKey ikey (v.searchOrder userKey ikey) none ⟨none⟩

/-- `Version::UpdateStats` for the object `f` (of the version that served the
read, which may be `v`): the object with its counter decremented, and `v` with
its seek file set when the counter ran out and none was set. -/
def updateStats (v : Version) (level : Nat) (f : FileMetaData) : FileMetaData × Version × Bool :=
  let f := { f with allowedSeeks := f.allowedSeeks - 1 }
  if f.allowedSeeks ≤ 0 ∧ v.fileToCompact.isNone then
    (f, { v with fileToCompact := some f, fileToCompactLevel := level }, true)
  else (f, v, false)

/-- The object `GetStats` names. -/
def findSeekFile (v : Version) (level : Nat) (number : UInt64) : Option FileMetaData :=
  (v.levelFiles level).find? fun f => f.number == number

/-- Write an updated object back in place: the first file of `level` with its
number. -/
def replaceFile (v : Version) (level : Nat) (f : FileMetaData) : Version :=
  { v with files := v.files.modify level fun files =>
      match files.findIdx? fun g => g.number == f.number with
      | some i => files.set i f
      | none => files }

end Version

/-! ## Scores -/

/-- `hlsm::cursor::calculate_level0_compaction_score`. -/
def level0CompactionScore (rt : Runtime) (level0Size level1Size : Nat) : ℚ :=
  if !rt.useCursorCompaction then (level0Size : ℚ) / kL0CompactionTrigger
  else if level0Size ≥ kL0CompactionTrigger ∧ level1Size = 0 then
    (level0Size : ℚ) / kL0CompactionTrigger
  else 0

/-- `hlsm::cursor::calculate_compaction_score` for a level above 0: `X.L` is
scored with `X.R` in mind, and `X.R` only while `X.L` is empty. -/
def calculateCompactionScore (rt : Runtime) (level : Nat) (files : List (List FileMetaData)) : ℚ :=
  let size (l : Nat) : ℚ := totalFileSize (files.getD l [])
  if (files.getD level []).isEmpty then 0
  else if level = 1 then
    max (size 1 / maxBytesForLevel 1) (((files.getD 0 []).length : ℚ) / rt.l0StopWritesTrigger)
  else if level % 2 = 1 then
    max (size level / maxBytesForLevel level) (size (level - 1) / maxBytesForLevel (level - 1))
  else if size (level + 1) = 0 then size level / maxBytesForLevel level
  else 0

/-- The score `Finalize` gives one level. -/
def levelScore (rt : Runtime) (v : Version) (level : Nat) : ℚ :=
  if level = 0 then
    let score := level0CompactionScore rt (v.numFiles 0) (v.numFiles 1)
    if rt.restrictL0Score > 0 then min score rt.restrictL0Score else score
  else if rt.useCursorCompaction then calculateCompactionScore rt level v.files
  else if rt.kMaxLevel > 0 ∧ (level : Int) ≥ rt.kMaxLevel then 0
  else (totalFileSize (v.levelFiles level) : ℚ) / defaultMaxBytesForLevel level

/-- `VersionSet::Finalize`: the first level with the highest score. -/
def finalize (rt : Runtime) (v : Version) : Version :=
  let best := (List.range (kNumLevels - 1)).foldl
    (fun (best : Int × ℚ) level =>
      let score := levelScore rt v level
      if score > best.2 then ((level : Int), score) else best)
    (-1, -1)
  { v with compactionLevel := best.1, compactionScore := best.2 }

@[simp] theorem finalize_files (rt : Runtime) (v : Version) : (finalize rt v).files = v.files := by
  simp only [finalize]

@[simp] theorem finalize_fileToCompact (rt : Runtime) (v : Version) :
    (finalize rt v).fileToCompact = v.fileToCompact := by
  simp only [finalize]

/-! ## `FindFile` -/

def LargestSorted (files : List FileMetaData) : Prop :=
  files.Pairwise fun a b => internalCompare a.largest.rep b.largest.rep = .lt

/-! ## What `Get` depends on -/

def FileMetaData.layout (f : FileMetaData) : UInt64 × InternalKey × InternalKey :=
  (f.number, f.smallest, f.largest)

def Version.layout (v : Version) : List (List (UInt64 × InternalKey × InternalKey)) :=
  v.files.map fun files => files.map FileMetaData.layout

theorem tableCacheGet_eq_of_layout (tables : UInt64 → Except Status Table) {f g : FileMetaData}
    (same : f.layout = g.layout) (ikey userKey : Bytes) :
    tableCacheGet tables f ikey userKey = tableCacheGet tables g ikey userKey := by
  have number : f.number = g.number := congrArg Prod.fst same
  simp [tableCacheGet, number]

theorem getLoop_eq_of_layout (tables : UInt64 → Except Status Table) (userKey ikey : Bytes) :
    ∀ (xs ys : List (Nat × FileMetaData)),
      xs.map (fun entry => (entry.1, entry.2.layout)) =
        ys.map (fun entry => (entry.1, entry.2.layout)) →
      ∀ lastFileRead stats,
        getLoop tables userKey ikey xs lastFileRead stats =
          getLoop tables userKey ikey ys lastFileRead stats := by
  intro xs
  induction xs with
  | nil =>
      intro ys same lastFileRead stats
      cases ys with
      | nil => rfl
      | cons _ _ => simp at same
  | cons x rest ih =>
      intro ys same lastFileRead stats
      cases ys with
      | nil => simp at same
      | cons y others =>
          obtain ⟨level, f⟩ := x
          obtain ⟨level', g⟩ := y
          simp only [List.map_cons, List.cons.injEq, Prod.mk.injEq] at same
          obtain ⟨⟨sameLevel, sameFile⟩, sameRest⟩ := same
          subst sameLevel
          have number : f.number = g.number := congrArg Prod.fst sameFile
          simp only [getLoop, tableCacheGet_eq_of_layout tables sameFile, number]
          split <;> first | rfl | exact ih others sameRest _ _

section Layout

variable {l l' : List FileMetaData}

theorem levelFiles_layout {v w : Version} (same : v.layout = w.layout) (level : Nat) :
    (v.levelFiles level).map FileMetaData.layout = (w.levelFiles level).map FileMetaData.layout := by
  have atLevel := congrArg (fun files => files[level]?) same
  simp only [Version.layout, List.getElem?_map] at atLevel
  simp only [Version.levelFiles, List.getD_eq_getElem?_getD]
  cases hv : v.files[level]? <;> cases hw : w.files[level]? <;> simp_all

theorem filter_layout (same : l.map FileMetaData.layout = l'.map FileMetaData.layout)
    (q : UInt64 × InternalKey × InternalKey → Bool) :
    (l.filter fun f => q f.layout).map FileMetaData.layout =
      (l'.filter fun f => q f.layout).map FileMetaData.layout := by
  have factored : ∀ files : List FileMetaData,
      (files.filter fun f => q f.layout).map FileMetaData.layout =
        (files.map FileMetaData.layout).filter q := fun files => List.filter_map.symm
  rw [factored, factored, same]

theorem insertNewestFirst_layout {f g : FileMetaData} (sameFile : f.layout = g.layout) :
    ∀ {l l' : List FileMetaData}, l.map FileMetaData.layout = l'.map FileMetaData.layout →
      (insertNewestFirst f l).map FileMetaData.layout =
        (insertNewestFirst g l').map FileMetaData.layout := by
  intro l
  induction l with
  | nil =>
      intro l' same
      cases l' with
      | nil => simpa [insertNewestFirst] using sameFile
      | cons _ _ => simp at same
  | cons h rest ih =>
      intro l' same
      cases l' with
      | nil => simp at same
      | cons h' rest' =>
          simp only [List.map_cons, List.cons.injEq] at same
          have numbers : f.number = g.number := congrArg Prod.fst sameFile
          have heads : h.number = h'.number := congrArg Prod.fst same.1
          simp only [insertNewestFirst, numbers, heads]
          split
          · simp [sameFile, same.1, same.2]
          · simp [same.1, ih same.2]

theorem sortNewestFirst_layout :
    ∀ {l l' : List FileMetaData}, l.map FileMetaData.layout = l'.map FileMetaData.layout →
      (sortNewestFirst l).map FileMetaData.layout =
        (sortNewestFirst l').map FileMetaData.layout := by
  intro l
  induction l with
  | nil =>
      intro l' same
      cases l' with
      | nil => rfl
      | cons _ _ => simp at same
  | cons f rest ih =>
      intro l' same
      cases l' with
      | nil => simp at same
      | cons g rest' =>
          simp only [List.map_cons, List.cons.injEq] at same
          exact insertNewestFirst_layout same.1 (ih same.2)

theorem findFile_layout (same : l.map FileMetaData.layout = l'.map FileMetaData.layout)
    (key : Bytes) : findFile l key = findFile l' key := by
  apply BinarySearch.firstIndex_congr
  have factored : ∀ files : List FileMetaData,
      files.map (fun f => internalCompare f.largest.rep key != .lt) =
        (files.map FileMetaData.layout).map fun x => internalCompare x.2.2.rep key != .lt :=
    fun files => by simp [FileMetaData.layout]
  rw [factored, factored, same]

theorem getElem?_layout (same : l.map FileMetaData.layout = l'.map FileMetaData.layout)
    (i : Nat) : (l[i]?).map FileMetaData.layout = (l'[i]?).map FileMetaData.layout := by
  rw [← List.getElem?_map, ← List.getElem?_map, same]

end Layout

theorem filesToSearch_layout {v w : Version} (same : v.layout = w.layout) (level : Nat)
    (userKey ikey : Bytes) :
    (v.filesToSearch level userKey ikey).map FileMetaData.layout =
      (w.filesToSearch level userKey ikey).map FileMetaData.layout := by
  have files := levelFiles_layout same level
  unfold Version.filesToSearch
  split
  · -- level 0: the overlapping files, newest first
    apply sortNewestFirst_layout
    exact filter_layout files fun x =>
      bytewiseCompare userKey x.2.1.userKey != .lt && bytewiseCompare userKey x.2.2.userKey != .gt
  · -- other levels: the one file `FindFile` picks
    simp only [findFile_layout files ikey]
    have picked := getElem?_layout files (findFile (w.levelFiles level) ikey)
    cases hv : (v.levelFiles level)[findFile (w.levelFiles level) ikey]? <;>
      cases hw : (w.levelFiles level)[findFile (w.levelFiles level) ikey]? <;>
      simp only [hv, hw, Option.map_none, Option.map_some, reduceCtorEq,
        Option.some.injEq] at picked
    · rfl
    · rename_i f g
      have smallest : f.smallest = g.smallest := congrArg (fun x => x.2.1) picked
      simp only [smallest]
      split <;> simp [picked]

theorem searchOrder_layout {v w : Version} (same : v.layout = w.layout) (userKey ikey : Bytes) :
    (v.searchOrder userKey ikey).map (fun entry => (entry.1, entry.2.layout)) =
      (w.searchOrder userKey ikey).map (fun entry => (entry.1, entry.2.layout)) := by
  have length : v.files.length = w.files.length := by
    simpa [Version.layout] using congrArg List.length same
  simp only [Version.searchOrder, List.map_flatMap, List.map_map, length]
  apply List.flatMap_congr
  intro level _
  have atLevel := congrArg (List.map fun x => (level, x)) (filesToSearch_layout same level userKey ikey)
  simpa [List.map_map, Function.comp_def] using atLevel

/-- `Get` reads a version through the numbers and key ranges of its files:
changing seek counters changes no read. -/
theorem get_eq_of_layout (tables : UInt64 → Except Status Table) {v w : Version}
    (same : v.layout = w.layout) (userKey : Bytes) (snapshot : SequenceNumber) :
    v.get tables userKey snapshot = w.get tables userKey snapshot :=
  getLoop_eq_of_layout tables userKey _ _ _ (searchOrder_layout same userKey _) _ _

/-! ## Writing a charged file back -/

namespace Version

/-- The body of `replaceFile` on the files of one level. -/
def replaceInLevel (f : FileMetaData) (files : List FileMetaData) : List FileMetaData :=
  match files.findIdx? fun g => g.number == f.number with
  | some i => files.set i f
  | none => files

theorem replaceFile_eq (v : Version) (level : Nat) (f : FileMetaData) :
    v.replaceFile level f = { v with files := v.files.modify level (replaceInLevel f) } := rfl

section Replace

variable (f : FileMetaData)

@[simp] theorem replaceInLevel_nil : replaceInLevel f [] = [] := rfl

theorem replaceInLevel_cons (g : FileMetaData) (files : List FileMetaData) :
    replaceInLevel f (g :: files) =
      if g.number = f.number then f :: files else g :: replaceInLevel f files := by
  unfold replaceInLevel
  rw [List.findIdx?_cons]
  by_cases same : g.number = f.number
  · simp [same]
  · cases files.findIdx? (fun g => g.number == f.number) <;> simp [same]

theorem layout_replaceInLevel {g : FileMetaData} (same : g.layout = f.layout) :
    ∀ {files : List FileMetaData}, files.find? (fun h => h.number == f.number) = some g →
      (replaceInLevel f files).map FileMetaData.layout = files.map FileMetaData.layout
  | [], found => by simp at found
  | h :: files, found => by
      rw [replaceInLevel_cons]
      by_cases first : h.number = f.number
      · have picked : h = g := by simpa [first] using found
        subst picked
        simp [first, same]
      · have miss : (h.number == f.number) = false := by simpa using first
        simp only [List.find?_cons, miss] at found
        simp [first, layout_replaceInLevel same found]

theorem find?_replaceInLevel {g : FileMetaData} : ∀ {files : List FileMetaData},
    files.find? (fun h => h.number == f.number) = some g →
      (replaceInLevel f files).find? (fun h => h.number == f.number) = some f
  | [], found => by simp at found
  | h :: files, found => by
      rw [replaceInLevel_cons]
      by_cases first : h.number = f.number
      · simp [first]
      · have miss : (h.number == f.number) = false := by simpa using first
        simp only [List.find?_cons, miss] at found
        simp [first, find?_replaceInLevel found]

theorem replaceInLevel_self : ∀ {files : List FileMetaData},
    files.find? (fun h => h.number == f.number) = some f → replaceInLevel f files = files
  | [], found => by simp at found
  | h :: files, found => by
      rw [replaceInLevel_cons]
      by_cases first : h.number = f.number
      · have picked : h = f := by simpa [first] using found
        simp [picked]
      · have miss : (h.number == f.number) = false := by simpa using first
        simp only [List.find?_cons, miss] at found
        simp [first, replaceInLevel_self found]

theorem replaceInLevel_replaceInLevel {f' : FileMetaData} (same : f.number = f'.number) :
    ∀ files : List FileMetaData, replaceInLevel f' (replaceInLevel f files) = replaceInLevel f' files
  | [] => rfl
  | h :: files => by
      by_cases first : h.number = f.number
      · simp [replaceInLevel_cons, first, same]
      · have other : h.number ≠ f'.number := same ▸ first
        simp [replaceInLevel_cons, first, other, replaceInLevel_replaceInLevel same files]

theorem levelFiles_replaceFile (v : Version) (level : Nat) :
    (v.replaceFile level f).levelFiles level = replaceInLevel f (v.levelFiles level) := by
  simp only [replaceFile_eq, levelFiles, List.getD_eq_getElem?_getD, List.getElem?_modify]
  cases v.files[level]? <;> simp

theorem findSeekFile_replaceFile {v : Version} {level : Nat} {g : FileMetaData}
    (found : v.findSeekFile level f.number = some g) :
    (v.replaceFile level f).findSeekFile level f.number = some f := by
  simp only [findSeekFile, levelFiles_replaceFile] at found ⊢
  exact find?_replaceInLevel f found

theorem files_of_findSeekFile {v : Version} {level : Nat} {number : UInt64} {g : FileMetaData}
    (found : v.findSeekFile level number = some g) :
    ∃ files, v.files[level]? = some files ∧ files.find? (fun h => h.number == number) = some g := by
  simp only [findSeekFile, levelFiles, List.getD_eq_getElem?_getD] at found
  cases atLevel : v.files[level]? with
  | none => simp [atLevel] at found
  | some files => exact ⟨files, rfl, by simpa [atLevel] using found⟩

theorem layout_replaceFile {v : Version} {level : Nat} {g : FileMetaData}
    (found : v.findSeekFile level f.number = some g) (same : g.layout = f.layout) :
    (v.replaceFile level f).layout = v.layout := by
  obtain ⟨files, atLevel, inFiles⟩ := files_of_findSeekFile found
  simp only [layout, replaceFile_eq]
  apply List.ext_getElem?
  intro j
  simp only [List.getElem?_map, List.getElem?_modify]
  by_cases here : level = j
  · subst here
    simp [atLevel, layout_replaceInLevel f same inFiles]
  · simp [here]

theorem replaceFile_self {v : Version} {level : Nat} (found : v.findSeekFile level f.number = some f) :
    v.replaceFile level f = v := by
  obtain ⟨files, atLevel, inFiles⟩ := files_of_findSeekFile found
  have unchanged : v.files.modify level (replaceInLevel f) = v.files := by
    apply List.ext_getElem?
    intro j
    simp only [List.getElem?_modify]
    by_cases here : level = j
    · subst here
      simp [atLevel, replaceInLevel_self f inFiles]
    · simp [here]
  rw [replaceFile_eq, unchanged]

theorem replaceFile_replaceFile (v : Version) (level : Nat) {f' : FileMetaData}
    (same : f.number = f'.number) :
    (v.replaceFile level f).replaceFile level f' = v.replaceFile level f' := by
  simp only [replaceFile_eq, List.modify_modify_eq]
  congr 2
  funext files
  exact replaceInLevel_replaceInLevel f same files

end Replace

theorem updateStats_of_lt (v : Version) (level : Nat) {f : FileMetaData} (left : 1 < f.allowedSeeks) :
    v.updateStats level f = ({ f with allowedSeeks := f.allowedSeeks - 1 }, v, false) := by
  have spare : ¬ f.allowedSeeks - 1 ≤ 0 := by omega
  simp [updateStats, spare]

theorem updateStats_of_last (v : Version) (level : Nat) {f : FileMetaData} (last : f.allowedSeeks = 1)
    (none : v.fileToCompact = none) :
    v.updateStats level f =
      ({ f with allowedSeeks := 0 },
        { v with fileToCompact := some { f with allowedSeeks := 0 }, fileToCompactLevel := level }, true) := by
  simp [updateStats, last, none]

end Version

end HLsm
