import HLsm.Version
import HLsm.Lib.SortedMerge
import HLsm.Lib.Batch

/-!
# `VersionSet::Builder`: applying edits to a version

The state of a version set (`VersionSet`, `BasicVersionSet` and
`LazyVersionSet` share one record; a basic set never touches the lazy version
or the delta metadata) and the builder that folds edits into a new version.

`Builder::Apply` records, per level, the file numbers an edit deletes and the
files it adds (in a `std::set` ordered by `BySmallestKey`), and writes the
edit's compaction pointers, and for a lazy set its delta metadata, straight
into the version set.  `SaveTo` merges the added files of each level into the
base level by `std::upper_bound` and drops every file whose number the level
deleted.  The overlap assertion of `MaybeAddFile` and `SaveTo` is compiled out
(`-DNDEBUG`) and not modelled.

The two builder classes differ only in the lazy levels and the delta metadata;
they are one definition with a `lazy` switch.

Results:
* `mem_saveLevel`: a file is in a saved level exactly when it is in the base
  level or was added, and its number was not deleted.
* `toBatch_deleteIn_addAll`: on each level, `Apply` merges the edit's batch of
  deletions and additions into the builder's (`Batch.andThen`), as long as the
  edit adds no file number the level was already given.
-/

set_option autoImplicit false

namespace HLsm

open HLsm.Coding HLsm.Format Std

/-! ## The version set's state -/

/-- The fields of `VersionSet` and `LazyVersionSet` that the modelled
functions read or write.  `descriptorLog` is the number of the MANIFEST that
`descriptor_log_` writes to, when one is open. -/
structure VersionSet where
  userComparatorName : Bytes
  nextFileNumber : UInt64
  manifestFileNumber : UInt64
  lastSequence : SequenceNumber
  logNumber : UInt64
  prevLogNumber : UInt64
  descriptorLog : Option UInt64
  current : Version
  currentLazy : Version
  compactPointer : List Bytes
  deltaMeta : DeltaMetas
  deriving DecidableEq, Repr

/-- The constructor: `next_file_number_ = 2`, empty versions (a lazy set also
builds a lazy version of `kNumLazyLevels` levels), empty compaction pointers,
every delta meta as `DeltaLevelMeta ()` leaves it. -/
def VersionSet.new (userComparatorName : Bytes) : VersionSet where
  userComparatorName := userComparatorName
  nextFileNumber := 2
  manifestFileNumber := 0
  lastSequence := 0
  logNumber := 0
  prevLogNumber := 0
  descriptorLog := none
  current := Version.new kNumLevels
  currentLazy := Version.new kNumLazyLevels
  compactPointer := List.replicate kNumLevels []
  deltaMeta := initialDeltaMetas

/-! ## The builder -/

/-- `BySmallestKey`: by smallest internal key, ties broken by file number. -/
def bySmallestKey : FileMetaData → FileMetaData → Ordering :=
  compareLex (byKey internalCompare fun f => f.smallest.rep) (byKey compare FileMetaData.number)

instance : TransCmp bySmallestKey :=
  inferInstanceAs (TransCmp (compareLex (byKey internalCompare fun f : FileMetaData => f.smallest.rep)
    (byKey compare FileMetaData.number)))

/-- `LevelState`: the numbers deleted from a level and the files added to it. -/
structure LevelState where
  deletedFiles : OrdSet (compare : UInt64 → UInt64 → Ordering)
  addedFiles : OrdSet bySmallestKey
  deriving DecidableEq, Repr

def LevelState.empty : LevelState := ⟨∅, ∅⟩

/-- `VersionSet::Builder` and `LazyVersionSet::Builder`. -/
structure Builder where
  base : Version
  lazyBase : Version
  levels : List LevelState
  lazyLevels : List LevelState
  deriving DecidableEq, Repr

namespace Builder

def new (lazy : Bool) (base lazyBase : Version) : Builder where
  base := base
  lazyBase := lazyBase
  levels := List.replicate kNumLevels LevelState.empty
  lazyLevels := if lazy then List.replicate kNumLazyLevels LevelState.empty else []

/-- `allowed_seeks` of a file the primary version adds: one seek per
`kMinBytesPerSeek` bytes, and at least 100.  The `uint64_t` quotient is stored
in the `int` field, so a file of 2^31 seeks or more wraps to a negative count
and gets 100. -/
def primaryAllowedSeeks (rt : Runtime) (f : FileMetaData) : Int :=
  let seeks : Nat := f.fileSize.toNat / rt.kMinBytesPerSeek % 2 ^ 32
  max (if seeks < 2 ^ 31 then seeks else seeks - 2 ^ 32) 100

/-- `allowed_seeks` of a file the lazy version adds. -/
def lazyAllowedSeeks : Int := 1000000

/-- `levels[level].deleted_files.insert (number)`. -/
def deleteIn (levels : List LevelState) (entry : Nat × UInt64) : List LevelState :=
  levels.modify entry.1 fun ls => { ls with deletedFiles := ls.deletedFiles.insert entry.2 }

def addIn (levels : List LevelState) (level : Nat) (f : FileMetaData) : List LevelState :=
  levels.modify level fun ls =>
    { deletedFiles := ls.deletedFiles.erase f.number
      addedFiles := ls.addedFiles.insert f }

/-- `vset_->compact_pointer_[level] = key.Encode ()` for every compaction
pointer of the edit. -/
def applyCompactPointers (compactPointer : List Bytes) (pointers : List (Nat × InternalKey)) :
    List Bytes :=
  pointers.foldl (fun cp entry => cp.set entry.1 entry.2.encode) compactPointer

/-- `Builder::Apply`: the version set with the edit's compaction pointers (and,
for a lazy set, its delta metadata), and the builder with the edit's deletions
and additions. -/
def apply (lazy : Bool) (rt : Runtime) (vset : VersionSet) (b : Builder) (e : VersionEdit) :
    VersionSet × Builder :=
  let vset := { vset with compactPointer := applyCompactPointers vset.compactPointer e.compactPointers }
  let vset := if lazy then { vset with deltaMeta := e.deltaMeta } else vset
  let levels := e.deletedFiles.elems.foldl deleteIn b.levels
  let lazyLevels := if lazy then e.deletedFilesLazy.elems.foldl deleteIn b.lazyLevels else b.lazyLevels
  let levels := e.newFiles.foldl
    (fun levels entry =>
      addIn levels entry.1 { entry.2 with allowedSeeks := primaryAllowedSeeks rt entry.2 })
    levels
  let lazyLevels :=
    if lazy then
      e.newFilesLazy.foldl
        (fun levels entry => addIn levels entry.1 { entry.2 with allowedSeeks := lazyAllowedSeeks })
        lazyLevels
    else lazyLevels
  (vset, { b with levels := levels, lazyLevels := lazyLevels })

/-- `SaveTo` for one level: merge the added files into the base files, then
drop the deleted numbers (`MaybeAddFile`). -/
def saveLevel (baseFiles : List FileMetaData) (ls : LevelState) : List FileMetaData :=
  (SortedMerge.mergeUpper bySmallestKey baseFiles ls.addedFiles.elems).filter
    fun f => !ls.deletedFiles.contains f.number

/-- `SaveTo (v, base, levels, kLevel)`: the levels of a fresh version. -/
def saveLevels (base : Version) (levels : List LevelState) (levelNum : Nat) : List (List FileMetaData) :=
  (List.range levelNum).map fun level => saveLevel (base.levelFiles level) (levels.getD level .empty)

/-- `SaveTo (v)`: the new primary version. -/
def saveTo (b : Builder) : Version :=
  { Version.new kNumLevels with files := saveLevels b.base b.levels kNumLevels }

/-- `SaveTo (v, lv)`'s lazy half: the new lazy version. -/
def saveToLazy (b : Builder) : Version :=
  { Version.new kNumLazyLevels with files := saveLevels b.lazyBase b.lazyLevels kNumLazyLevels }

end Builder

def BasicVersionSet.Builder.apply (rt : Runtime) (vset : VersionSet) (b : Builder) (e : VersionEdit) :
    VersionSet × Builder :=
  HLsm.Builder.apply false rt vset b e

def LazyVersionSet.Builder.apply (rt : Runtime) (vset : VersionSet) (b : Builder) (e : VersionEdit) :
    VersionSet × Builder :=
  HLsm.Builder.apply true rt vset b e

namespace Builder

/-! ## What a saved level holds -/

@[simp] theorem apply_current (lazy : Bool) (rt : Runtime) (vset : VersionSet) (b : Builder)
    (e : VersionEdit) : (apply lazy rt vset b e).1.current = vset.current := by
  unfold apply
  split <;> rfl

@[simp] theorem apply_currentLazy (lazy : Bool) (rt : Runtime) (vset : VersionSet) (b : Builder)
    (e : VersionEdit) : (apply lazy rt vset b e).1.currentLazy = vset.currentLazy := by
  unfold apply
  split <;> rfl

theorem apply_vset (lazy : Bool) (rt : Runtime) (vset : VersionSet) (b : Builder)
    (e : VersionEdit) :
    (apply lazy rt vset b e).1 =
      { vset with
        compactPointer := applyCompactPointers vset.compactPointer e.compactPointers
        deltaMeta := if lazy then e.deltaMeta else vset.deltaMeta } := by
  unfold apply
  cases lazy <;> rfl

@[simp] theorem apply_base (lazy : Bool) (rt : Runtime) (vset : VersionSet) (b : Builder)
    (e : VersionEdit) : (apply lazy rt vset b e).2.base = b.base := rfl

@[simp] theorem apply_lazyBase (lazy : Bool) (rt : Runtime) (vset : VersionSet) (b : Builder)
    (e : VersionEdit) : (apply lazy rt vset b e).2.lazyBase = b.lazyBase := rfl

theorem mem_saveLevel {baseFiles : List FileMetaData} {ls : LevelState} {f : FileMetaData} :
    f ∈ saveLevel baseFiles ls ↔
      (f ∈ baseFiles ∨ f ∈ ls.addedFiles.elems) ∧ ls.deletedFiles.contains f.number = false := by
  simp [saveLevel, SortedMerge.mem_mergeUpper]

theorem levelFiles_saveTo (b : Builder) {level : Nat} (inRange : level < kNumLevels) :
    b.saveTo.levelFiles level = saveLevel (b.base.levelFiles level) (b.levels.getD level .empty) := by
  simp [saveTo, saveLevels, Version.levelFiles, inRange]

theorem levelFiles_saveToLazy (b : Builder) {level : Nat} (inRange : level < kNumLazyLevels) :
    b.saveToLazy.levelFiles level =
      saveLevel (b.lazyBase.levelFiles level) (b.lazyLevels.getD level .empty) := by
  simp [saveToLazy, saveLevels, Version.levelFiles, inRange]

theorem number_eq_of_bySmallestKey {a b : FileMetaData} (equiv : bySmallestKey a b = .eq) :
    a.number = b.number := by
  simp only [bySmallestKey, compareLex, byKey, Ordering.then_eq_eq] at equiv
  simpa using equiv.2

theorem saveLevel_strict {baseFiles : List FileMetaData} (ls : LevelState)
    (sorted : SortedSet.Sorted bySmallestKey baseFiles)
    (apart : ∀ b ∈ baseFiles, ∀ a ∈ ls.addedFiles.elems, b.number ≠ a.number) :
    SortedSet.Sorted bySmallestKey (saveLevel baseFiles ls) :=
  (SortedMerge.mergeUpper_strict sorted ls.addedFiles.sorted fun b inBase a inAdded equiv =>
    apart b inBase a inAdded (number_eq_of_bySmallestKey equiv)).filter _

theorem sorted_of_ordered {files : List FileMetaData}
    (ordered : SortedMerge.Ordered bySmallestKey files) (numbers : (files.map FileMetaData.number).Nodup) :
    SortedSet.Sorted bySmallestKey files := by
  refine (ordered.and (List.pairwise_map.mp numbers)).imp fun {a b} ⟨le, apart⟩ => ?_
  cases order : bySmallestKey a b with
  | lt => rfl
  | eq => exact absurd (number_eq_of_bySmallestKey order) apart
  | gt => simp [order] at le

/-! ## An edit that names no file -/

@[simp] theorem saveLevel_empty (baseFiles : List FileMetaData) : saveLevel baseFiles .empty = baseFiles := by
  simp [saveLevel, LevelState.empty, SortedMerge.mergeUpper]

theorem saveLevels_replicate_empty (base : Version) {levelNum : Nat}
    (filesLength : base.files.length = levelNum) :
    saveLevels base (List.replicate levelNum .empty) levelNum = base.files := by
  apply List.ext_getElem
  · simp [saveLevels, filesLength]
  · intro i below _
    have inRange : i < levelNum := by simpa [saveLevels] using below
    simp [saveLevels, Version.levelFiles, List.getD_eq_getElem?_getD, List.getElem?_replicate, inRange,
      List.getElem?_eq_getElem (by omega : i < base.files.length)]

end Builder

/-- The edit adds and deletes no file, in either version. -/
structure VersionEdit.NamesNoFile (e : VersionEdit) : Prop where
  newFiles : e.newFiles = []
  newFilesLazy : e.newFilesLazy = []
  deletedFiles : e.deletedFiles.elems = []
  deletedFilesLazy : e.deletedFilesLazy.elems = []

namespace Builder

theorem apply_builder_of_namesNoFile (lazy : Bool) (rt : Runtime) (vset : VersionSet) (b : Builder)
    {e : VersionEdit} (noFile : e.NamesNoFile) : (apply lazy rt vset b e).2 = b := by
  cases lazy <;> simp [apply, noFile.newFiles, noFile.newFilesLazy, noFile.deletedFiles,
    noFile.deletedFilesLazy]

theorem saveTo_new (lazy : Bool) {base lazyBase : Version} (baseLength : base.files.length = kNumLevels) :
    (new lazy base lazyBase).saveTo = { Version.new kNumLevels with files := base.files } := by
  simp [saveTo, new, saveLevels_replicate_empty base baseLength]

theorem saveToLazy_new {base lazyBase : Version} (lazyLength : lazyBase.files.length = kNumLazyLevels) :
    (new true base lazyBase).saveToLazy = { Version.new kNumLazyLevels with files := lazyBase.files } := by
  simp [saveToLazy, new, saveLevels_replicate_empty lazyBase lazyLength]

end Builder

/-! ## `Apply` on one level, as a batch -/

def LevelState.toBatch (ls : LevelState) : Batch UInt64 FileMetaData :=
  ⟨{n | ls.deletedFiles.contains n = true}, {f | f ∈ ls.addedFiles.elems}⟩

/-- The files an edit adds to one level, each with the `allowed_seeks` that
`Apply` gives it. -/
def addedAt (added : List (Nat × FileMetaData)) (seeks : FileMetaData → Int) (level : Nat) :
    Set FileMetaData :=
  {f | ∃ p ∈ added, p.1 = level ∧ f = { p.2 with allowedSeeks := seeks p.2 }}

def addedNumbers (added : List (Nat × FileMetaData)) : List (Nat × UInt64) :=
  added.map fun p => (p.1, p.2.number)

def editBatch (deleted : List (Nat × UInt64)) (added : List (Nat × FileMetaData))
    (seeks : FileMetaData → Int) (level : Nat) : Batch UInt64 FileMetaData :=
  ⟨{n | (level, n) ∈ deleted}, addedAt added seeks level⟩

theorem mem_addedNumbers_of_mem_addedAt {adds : List (Nat × FileMetaData)}
    {seeks : FileMetaData → Int} {level : Nat} {f : FileMetaData} (added : f ∈ addedAt adds seeks level) :
    (level, f.number) ∈ addedNumbers adds := by
  obtain ⟨p, member, atLevel, rfl⟩ := added
  exact List.mem_map.mpr ⟨p, member, by simp [atLevel]⟩

theorem eq_of_mem_addedAt {adds : List (Nat × FileMetaData)} {seeks : FileMetaData → Int}
    {level : Nat} (distinct : (addedNumbers adds).Nodup) {f g : FileMetaData}
    (inF : f ∈ addedAt adds seeks level) (inG : g ∈ addedAt adds seeks level)
    (same : f.number = g.number) : f = g := by
  obtain ⟨p, memberP, atLevelP, rfl⟩ := inF
  obtain ⟨q, memberQ, atLevelQ, rfl⟩ := inG
  have entry : p = q := List.inj_on_of_nodup_map distinct memberP memberQ (by
    simp only at same
    simp [atLevelP, atLevelQ, same])
  rw [entry]

namespace Builder

@[simp] theorem toBatch_empty : LevelState.empty.toBatch = Batch.empty := by
  simp [LevelState.toBatch, LevelState.empty, Batch.empty]

theorem saveLevel_eq_applyTo (baseFiles : List FileMetaData) (ls : LevelState) :
    {f | f ∈ saveLevel baseFiles ls} =
      ls.toBatch.applyTo FileMetaData.number {f | f ∈ baseFiles} := by
  ext f
  simp [mem_saveLevel, LevelState.toBatch]

theorem getD_modify {α : Type} (l : List α) (i j : Nat) (f : α → α) (d : α) :
    (l.modify i f).getD j d = if i = j ∧ j < l.length then f (l.getD j d) else l.getD j d := by
  simp only [List.getD_eq_getElem?_getD, List.getElem?_modify]
  by_cases inRange : j < l.length
  · simp [inRange]
  · simp [inRange]

theorem length_foldl_deleteIn (dels : List (Nat × UInt64)) (levels : List LevelState) :
    (dels.foldl deleteIn levels).length = levels.length := by
  induction dels generalizing levels with
  | nil => rfl
  | cons entry rest ih => simp [ih, deleteIn]

theorem toBatch_foldl_deleteIn (dels : List (Nat × UInt64)) (levels : List LevelState)
    (level : Nat) (inRange : level < levels.length) :
    ((dels.foldl deleteIn levels).getD level .empty).toBatch =
      ⟨(levels.getD level .empty).toBatch.deleted ∪ {n | (level, n) ∈ dels},
        (levels.getD level .empty).toBatch.added⟩ := by
  induction dels generalizing levels with
  | nil => simp
  | cons entry rest ih =>
      have stillInRange : level < (deleteIn levels entry).length := by simpa [deleteIn] using inRange
      rw [List.foldl_cons, ih _ stillInRange]
      simp only [deleteIn, getD_modify, inRange, and_true]
      by_cases here : entry.1 = level
      · obtain ⟨l, n⟩ := entry
        simp only at here
        subst here
        ext m
        · simp [LevelState.toBatch, or_assoc]
        · simp [LevelState.toBatch]
      · ext m
        · simp only [here, if_false, List.mem_cons, Set.mem_union, Set.mem_ofPred_eq]
          have other : (level, m) ≠ entry := fun same => here (by rw [← same])
          simp [other]
        · simp [here]

variable (seeks : FileMetaData → Int)

/-- `Apply`'s loop over the added files, with the `allowed_seeks` it gives. -/
def addAll (adds : List (Nat × FileMetaData)) (levels : List LevelState) : List LevelState :=
  adds.foldl (fun levels entry => addIn levels entry.1 { entry.2 with allowedSeeks := seeks entry.2 })
    levels

theorem length_addAll (adds : List (Nat × FileMetaData)) (levels : List LevelState) :
    (addAll seeks adds levels).length = levels.length := by
  induction adds generalizing levels with
  | nil => rfl
  | cons entry rest ih =>
      simp only [addAll, List.foldl_cons] at ih ⊢
      rw [ih]
      simp [addIn]

theorem toBatch_addIn (levels : List LevelState) (level : Nat) (inRange : level < levels.length)
    (target : Nat) (f : FileMetaData)
    (fresh : target = level →
      f.number ∉ FileMetaData.number '' (levels.getD level .empty).toBatch.added) :
    ((addIn levels target f).getD level .empty).toBatch =
      if target = level then
        ⟨(levels.getD level .empty).toBatch.deleted \ {f.number},
          (levels.getD level .empty).toBatch.added ∪ {f}⟩
      else (levels.getD level .empty).toBatch := by
  simp only [addIn, getD_modify, inRange, and_true]
  generalize levels.getD level .empty = ls at fresh ⊢
  by_cases here : target = level
  · simp only [here, if_true]
    -- no added file is equivalent to `f`, since none has its number
    have absent : ls.addedFiles.contains f = false := by
      simp only [OrdSet.contains, SortedSet.contains, List.any_eq_false, beq_iff_eq]
      intro g member equiv
      exact fresh here ⟨g, member, (number_eq_of_bySmallestKey equiv).symm⟩
    ext m
    · simp [LevelState.toBatch]
    · simp only [LevelState.toBatch, Set.mem_ofPred_eq, OrdSet.mem_insert, absent, and_true,
        Set.mem_union, Set.mem_singleton_iff]
  · simp [here]

theorem toBatch_addAll (adds : List (Nat × FileMetaData)) (levels : List LevelState)
    (level : Nat) (inRange : level < levels.length)
    (distinct : (addedNumbers adds).Nodup)
    (fresh : ∀ p ∈ adds, p.1 = level →
      p.2.number ∉ FileMetaData.number '' (levels.getD level .empty).toBatch.added) :
    ((addAll seeks adds levels).getD level .empty).toBatch =
      ⟨(levels.getD level .empty).toBatch.deleted \ FileMetaData.number '' addedAt adds seeks level,
        (levels.getD level .empty).toBatch.added ∪ addedAt adds seeks level⟩ := by
  induction adds generalizing levels with
  | nil => ext <;> simp [addAll, addedAt]
  | cons entry rest ih =>
      obtain ⟨notLater, distinctRest⟩ := List.nodup_cons.mp distinct
      let f : FileMetaData := { entry.2 with allowedSeeks := seeks entry.2 }
      have first := toBatch_addIn levels level inRange entry.1 f (fresh entry (by simp))
      -- the later additions are still fresh after the first one
      have freshRest : ∀ p ∈ rest, p.1 = level → p.2.number ∉
          FileMetaData.number '' ((addIn levels entry.1 f).getD level .empty).toBatch.added := by
        intro p member atLevel
        rw [first]
        split
        · rename_i here
          have apart : p.2.number ≠ entry.2.number := fun same =>
            notLater (List.mem_map.mpr ⟨p, member, by simp [atLevel, here, same]⟩)
          simp only [Set.image_union, Set.image_singleton, Set.mem_union, Set.mem_singleton_iff,
            not_or]
          exact ⟨fresh p (by simp [member]) atLevel, apart⟩
        · exact fresh p (by simp [member]) atLevel
      have stillInRange : level < (addIn levels entry.1 f).length := by simpa [addIn] using inRange
      have rest' := ih (addIn levels entry.1 f) stillInRange distinctRest freshRest
      simp only [addAll, List.foldl_cons] at rest' ⊢
      rw [rest', first]
      by_cases here : entry.1 = level
      · have grown : addedAt (entry :: rest) seeks level = {f} ∪ addedAt rest seeks level := by
          ext g
          simp [addedAt, here, f]
        simp only [here, if_true, grown, Set.image_union, Set.image_singleton]
        ext m
        · simp [Set.sdiff_sdiff]
        · simp [or_assoc]
      · have same : addedAt (entry :: rest) seeks level = addedAt rest seeks level := by
          ext g
          simp [addedAt, here]
        simp [here, same]

theorem apply_levels (lazy : Bool) (rt : Runtime) (vset : VersionSet) (b : Builder)
    (e : VersionEdit) :
    (apply lazy rt vset b e).2.levels =
      addAll (primaryAllowedSeeks rt) e.newFiles (e.deletedFiles.elems.foldl deleteIn b.levels) := by
  unfold apply
  cases lazy <;> rfl

theorem apply_lazyLevels (rt : Runtime) (vset : VersionSet) (b : Builder) (e : VersionEdit) :
    (apply true rt vset b e).2.lazyLevels =
      addAll (fun _ => lazyAllowedSeeks) e.newFilesLazy
        (e.deletedFilesLazy.elems.foldl deleteIn b.lazyLevels) := rfl

/-- The additions of an edit on one level, and the condition under which
`Apply` keeps them all: no two share a number, and none has the number of a
file the level was already given. -/
def FreshAdds (adds : List (Nat × FileMetaData)) (ls : LevelState) (level : Nat) : Prop :=
  (addedNumbers adds).Nodup ∧
    ∀ p ∈ adds, p.1 = level → p.2.number ∉ FileMetaData.number '' ls.toBatch.added

/-- Deleting then adding, one level at a time: `Apply` merges the batch the
edit asks of a level into the level's batch. -/
theorem toBatch_deleteIn_addAll (dels : List (Nat × UInt64)) (adds : List (Nat × FileMetaData))
    (levels : List LevelState) (level : Nat) (inRange : level < levels.length)
    (fresh : FreshAdds adds (levels.getD level .empty) level) :
    ((addAll seeks adds (dels.foldl deleteIn levels)).getD level .empty).toBatch =
      (levels.getD level .empty).toBatch.andThen FileMetaData.number
        (editBatch dels adds seeks level) := by
  have deleted := toBatch_foldl_deleteIn dels levels level inRange
  have stillInRange : level < (dels.foldl deleteIn levels).length := by
    rwa [length_foldl_deleteIn]
  rw [toBatch_addAll seeks adds _ level stillInRange fresh.1 (by rw [deleted]; exact fresh.2),
    deleted]
  rfl

end Builder

end HLsm
