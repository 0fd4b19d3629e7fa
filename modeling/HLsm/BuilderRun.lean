import HLsm.Replay

/-!
# The builder over a sequence of edits

`Apply` for each edit in turn on one `LazyVersionSet::Builder`, then
`SaveTo (v, lv)`.  On every level of either version the saved files are the
base files with each edit's deletions and additions applied one after
another, strictly increasing by `BySmallestKey` and with each file number
once, as long as no level and file number is added twice: neither one the base
version holds nor one an earlier addition made.

Without that condition a deleted base file comes back: an edit that adds its
number again only takes the number out of the level's deleted numbers, so
`SaveTo` keeps the base file beside the new one (`saveTo_keepsDeletedBaseFile`).
Reference counts are not modelled.

Results:
* `saveTo_applyAll`: every primary and lazy level `SaveTo` gives after a
  sequence of edits, under the condition above.
-/

set_option autoImplicit false

namespace HLsm

namespace Builder

open HLsm.Format VersionSet

/-- `Apply` of each edit in turn, on one builder. -/
def applyAll (lazy : Bool) (rt : Runtime) (vset : VersionSet) (b : Builder)
    (edits : List VersionEdit) : VersionSet × Builder :=
  edits.foldl (fun acc e => apply lazy rt acc.1 acc.2 e) (vset, b)

section Levels

variable (seeks : FileMetaData → Int) (dels : VersionEdit → List (Nat × UInt64))
  (adds : VersionEdit → List (Nat × FileMetaData))

def applyLevels (levels : List LevelState) (edits : List VersionEdit) : List LevelState :=
  edits.foldl (fun levels e => addAll seeks (adds e) ((dels e).foldl deleteIn levels)) levels

def levelBatches (edits : List VersionEdit) (level : Nat) : List (Batch UInt64 FileMetaData) :=
  edits.map fun e => editBatch (dels e) (adds e) seeks level

/-- What `SaveTo` is to give on one level after a sequence of edits: the base
files with each edit's batch applied in turn, strictly increasing by
`BySmallestKey`, each file number once. -/
structure EditsApplied (baseFiles : List FileMetaData) (edits : List VersionEdit) (level : Nat)
    (saved : List FileMetaData) : Prop where
  files : {f | f ∈ saved} =
    (levelBatches seeks dels adds edits level).foldl (Batch.step FileMetaData.number)
      {f | f ∈ baseFiles}
  sorted : SortedSet.Sorted bySmallestKey saved
  numbers : (saved.map FileMetaData.number).Nodup

theorem applyLevels_cons (levels : List LevelState) (e : VersionEdit) (edits : List VersionEdit) :
    applyLevels seeks dels adds levels (e :: edits) =
      applyLevels seeks dels adds (addAll seeks (adds e) ((dels e).foldl deleteIn levels)) edits :=
  rfl

theorem nodup_flatMap_cons {seen : List (Nat × UInt64)} {e : VersionEdit} {edits : List VersionEdit}
    (distinct : (seen ++ addedNumbers ((e :: edits).flatMap adds)).Nodup) :
    (seen ++ addedNumbers (adds e) ++ addedNumbers (edits.flatMap adds)).Nodup := by
  rwa [List.flatMap_cons, addedNumbers_append, ← List.append_assoc] at distinct

theorem toBatch_applyLevels : ∀ (edits : List VersionEdit) (levels : List LevelState)
    (seen : List (Nat × UInt64)),
    (∀ level < levels.length, ∀ f ∈ (levels.getD level .empty).addedFiles.elems,
      (level, f.number) ∈ seen) →
    (seen ++ addedNumbers (edits.flatMap adds)).Nodup →
    ∀ level < levels.length, ((applyLevels seeks dels adds levels edits).getD level .empty).toBatch =
      (levelBatches seeks dels adds edits level).foldl (Batch.andThen FileMetaData.number)
        (levels.getD level .empty).toBatch := by
  intro edits
  induction edits with
  | nil => intro _ _ _ _ _ _; rfl
  | cons e edits ih =>
      intro levels seen given distinct level inRange
      have split := nodup_flatMap_cons adds distinct
      obtain ⟨distinctHere, unseen⟩ := unseen_of_nodup split.of_append_left
      have fresh : ∀ l < levels.length, FreshAdds (adds e) (levels.getD l .empty) l :=
        fun l below => ⟨distinctHere, fun p member atLevel ⟨f, inBatch, same⟩ =>
          unseen p member (by rw [← same, atLevel]; exact given l below f inBatch)⟩
      have stillInRange : ∀ {l}, l < levels.length →
          l < (addAll seeks (adds e) ((dels e).foldl deleteIn levels)).length := by
        intro l below
        rwa [length_addAll, length_foldl_deleteIn]
      -- after the first edit the builder was given `seen` and the edit's additions
      have givenNext : ∀ l < (addAll seeks (adds e) ((dels e).foldl deleteIn levels)).length,
          ∀ f ∈ ((addAll seeks (adds e) ((dels e).foldl deleteIn levels)).getD l .empty).addedFiles.elems,
            (l, f.number) ∈ seen ++ addedNumbers (adds e) := by
        intro l below f member
        have below' : l < levels.length := by rwa [length_addAll, length_foldl_deleteIn] at below
        have inBatch : f ∈ ((addAll seeks (adds e) ((dels e).foldl deleteIn levels)).getD l
            .empty).toBatch.added := member
        rw [toBatch_deleteIn_addAll seeks _ _ _ l below' (fresh l below')] at inBatch
        rcases inBatch with before | added
        · exact List.mem_append_left _ (given l below' f before)
        · exact List.mem_append_right _ (mem_addedNumbers_of_mem_addedAt added)
      rw [applyLevels_cons, ih _ _ givenNext split level (stillInRange inRange),
        toBatch_deleteIn_addAll seeks _ _ _ level inRange (fresh level inRange)]
      rfl

theorem freshKeys_levelBatches (level : Nat) : ∀ (edits : List VersionEdit) (s : Set FileMetaData)
    (seen : List (Nat × UInt64)), (∀ f ∈ s, (level, f.number) ∈ seen) →
    (seen ++ addedNumbers (edits.flatMap adds)).Nodup →
    Batch.FreshKeys FileMetaData.number s (levelBatches seeks dels adds edits level)
  | [], _, _, _, _ => trivial
  | e :: edits, s, seen, given, distinct => by
      have split := nodup_flatMap_cons adds distinct
      refine ⟨?_, freshKeys_levelBatches level edits _ (seen ++ addedNumbers (adds e)) ?_ split⟩
      · rw [Set.disjoint_left]
        rintro n ⟨a, added, rfl⟩ ⟨f, member, same⟩
        have seenBefore : (level, a.number) ∈ seen := same ▸ given f member
        exact List.disjoint_of_nodup_append split.of_append_left seenBefore
          (mem_addedNumbers_of_mem_addedAt added)
      · rintro f (member | added)
        · exact List.mem_append_left _ (given f member)
        · exact List.mem_append_right _ (mem_addedNumbers_of_mem_addedAt added)

variable {seeks dels adds}

theorem mem_addedAt_of_foldl {edits : List VersionEdit} {level : Nat} {f : FileMetaData}
    (added : f ∈ ((levelBatches seeks dels adds edits level).foldl (Batch.andThen FileMetaData.number)
      Batch.empty).added) :
    f ∈ addedAt (edits.flatMap adds) seeks level := by
  obtain none | ⟨c, batch, inBatch⟩ := (Batch.mem_foldl_andThen_added _ _ f).mp added
  · exact absurd none (by simp [Batch.empty])
  · obtain ⟨e, member, rfl⟩ := List.mem_map.mp batch
    obtain ⟨p, inAdds, atLevel, rfl⟩ := inBatch
    exact ⟨p, List.mem_flatMap.mpr ⟨e, member, inAdds⟩, atLevel, rfl⟩

theorem editsApplied_saveLevel {levelNum level : Nat} (inRange : level < levelNum)
    (edits : List VersionEdit) {baseFiles : List FileMetaData}
    (ordered : SortedMerge.Ordered bySmallestKey baseFiles)
    (baseNumbers : (baseFiles.map FileMetaData.number).Nodup) {seen : List (Nat × UInt64)}
    (baseSeen : ∀ f ∈ baseFiles, (level, f.number) ∈ seen)
    (distinct : (seen ++ addedNumbers (edits.flatMap adds)).Nodup) :
    EditsApplied seeks dels adds baseFiles edits level
      (saveLevel baseFiles
        ((applyLevels seeks dels adds (List.replicate levelNum .empty) edits).getD level .empty)) := by
  generalize stateDef : (applyLevels seeks dels adds (List.replicate levelNum .empty) edits).getD
    level .empty = ls
  have addsDistinct : (addedNumbers (edits.flatMap adds)).Nodup := distinct.of_append_right
  -- the fresh builder was given nothing, so its level holds the merged batch
  have batch : ls.toBatch = (levelBatches seeks dels adds edits level).foldl
      (Batch.andThen FileMetaData.number) Batch.empty := by
    have run := toBatch_applyLevels seeks dels adds edits (List.replicate levelNum .empty) []
      (fun l _ f member => by
        rw [LevelsReplay.getD_replicate_empty] at member
        simp [LevelState.empty] at member)
      (by rwa [List.nil_append]) level (by rwa [List.length_replicate])
    rwa [stateDef, LevelsReplay.getD_replicate_empty, toBatch_empty] at run
  have added : ∀ a ∈ ls.addedFiles.elems, a ∈ addedAt (edits.flatMap adds) seeks level := by
    intro a member
    have inBatch : a ∈ ls.toBatch.added := member
    rw [batch] at inBatch
    exact mem_addedAt_of_foldl inBatch
  have apart : ∀ b ∈ baseFiles, ∀ a ∈ ls.addedFiles.elems, b.number ≠ a.number := by
    intro b inBase a inAdded same
    exact List.disjoint_of_nodup_append distinct (same ▸ baseSeen b inBase)
      (mem_addedNumbers_of_mem_addedAt (added a inAdded))
  have sorted := saveLevel_strict ls (sorted_of_ordered ordered baseNumbers) apart
  -- two saved files with one number are the same file
  have oneEach : ∀ f ∈ saveLevel baseFiles ls, ∀ g ∈ saveLevel baseFiles ls,
      f.number = g.number → f = g := by
    intro f inF g inG same
    rcases (mem_saveLevel.mp inF).1 with baseF | addedF <;>
      rcases (mem_saveLevel.mp inG).1 with baseG | addedG
    · exact List.inj_on_of_nodup_map baseNumbers baseF baseG same
    · exact absurd same (apart f baseF g addedG)
    · exact absurd same.symm (apart g baseG f addedF)
    · exact eq_of_mem_addedAt addsDistinct (added f addedF) (added g addedG) same
  refine ⟨?_, sorted, sorted.nodup.map_on oneEach⟩
  have fresh := freshKeys_levelBatches seeks dels adds level edits {f | f ∈ baseFiles} seen
    baseSeen distinct
  rw [saveLevel_eq_applyTo, batch, Batch.applyTo_foldl_andThen _ _ _ (by simpa [Batch.empty] using fresh),
    Batch.applyTo_empty]

end Levels

/-! ## The whole builder -/

theorem addedNumbers_snapshotFiles (v : Version) (levels : List Nat) :
    addedNumbers (snapshotFiles v levels) =
      levels.flatMap fun level => (v.levelFiles level).map fun f => (level, f.number) := by
  simp [addedNumbers, snapshotFiles, List.map_flatMap, FileMetaData.make, Function.comp_def]

@[simp] theorem snapshotFiles_new (levelNum : Nat) (levels : List Nat) :
    snapshotFiles (Version.new levelNum) levels = [] := by
  simp [snapshotFiles]

theorem editsApplied_of_snapshot (seeks : FileMetaData → Int)
    (dels : VersionEdit → List (Nat × UInt64)) (adds : VersionEdit → List (Nat × FileMetaData))
    {levelNum level : Nat} (inRange : level < levelNum) (v : Version) (edits : List VersionEdit)
    (ordered : SortedMerge.Ordered bySmallestKey (v.levelFiles level))
    (distinct : (addedNumbers (snapshotFiles v (List.range levelNum) ++ edits.flatMap adds)).Nodup) :
    EditsApplied seeks dels adds (v.levelFiles level) edits level
      (saveLevel (v.levelFiles level)
        ((applyLevels seeks dels adds (List.replicate levelNum .empty) edits).getD level .empty)) := by
  rw [addedNumbers_append] at distinct
  have levelDistinct := (List.nodup_flatMap.mp
    (addedNumbers_snapshotFiles v (List.range levelNum) ▸ distinct.of_append_left)).1 level
      (List.mem_range.mpr inRange)
  have baseNumbers : ((v.levelFiles level).map FileMetaData.number).Nodup :=
    List.Nodup.of_map (Prod.mk level) (by rw [List.map_map]; exact levelDistinct)
  refine editsApplied_saveLevel inRange edits ordered baseNumbers (fun f member => ?_) distinct
  rw [addedNumbers_snapshotFiles]
  exact List.mem_flatMap.mpr ⟨level, List.mem_range.mpr inRange, List.mem_map_of_mem member⟩

theorem applyAll_cons (lazy : Bool) (rt : Runtime) (vset : VersionSet) (b : Builder)
    (e : VersionEdit) (edits : List VersionEdit) :
    applyAll lazy rt vset b (e :: edits) =
      applyAll lazy rt (apply lazy rt vset b e).1 (apply lazy rt vset b e).2 edits :=
  rfl

theorem base_applyAll (lazy : Bool) (rt : Runtime) (edits : List VersionEdit) :
    ∀ (vset : VersionSet) (b : Builder),
      (applyAll lazy rt vset b edits).2.base = b.base ∧
        (applyAll lazy rt vset b edits).2.lazyBase = b.lazyBase := by
  induction edits with
  | nil => intro _ _; exact ⟨rfl, rfl⟩
  | cons e edits ih =>
      intro vset b
      rw [applyAll_cons, (ih _ _).1, (ih _ _).2, apply_base, apply_lazyBase]
      exact ⟨rfl, rfl⟩

theorem levels_applyAll (lazy : Bool) (rt : Runtime) (edits : List VersionEdit) :
    ∀ (vset : VersionSet) (b : Builder), (applyAll lazy rt vset b edits).2.levels =
      applyLevels (primaryAllowedSeeks rt) (fun e => e.deletedFiles.elems) VersionEdit.newFiles
        b.levels edits := by
  induction edits with
  | nil => intro _ _; rfl
  | cons e edits ih =>
      intro vset b
      rw [applyAll_cons, ih, apply_levels]
      rfl

theorem lazyLevels_applyAll (rt : Runtime) (edits : List VersionEdit) :
    ∀ (vset : VersionSet) (b : Builder), (applyAll true rt vset b edits).2.lazyLevels =
      applyLevels (fun _ => lazyAllowedSeeks) (fun e => e.deletedFilesLazy.elems)
        VersionEdit.newFilesLazy b.lazyLevels edits := by
  induction edits with
  | nil => intro _ _; rfl
  | cons e edits ih =>
      intro vset b
      rw [applyAll_cons, ih, apply_lazyLevels]
      rfl

/-- A fresh `LazyVersionSet::Builder` over `base` and `lazyBase`, given a
sequence of edits and saved: every level of the new primary and lazy versions
holds the base level with each edit's deletions and additions applied in turn
(with the `allowed_seeks` `Apply` gives), strictly increasing by
`BySmallestKey`, each file number once.  The base levels are in
`BySmallestKey` order, and no level and number is added twice: neither one
the base version holds nor one an earlier addition made. -/
theorem saveTo_applyAll (rt : Runtime) (vset : VersionSet) (base lazyBase : Version)
    (edits : List VersionEdit)
    (ordered : ∀ level < kNumLevels, SortedMerge.Ordered bySmallestKey (base.levelFiles level))
    (lazyOrdered : ∀ level < kNumLazyLevels,
      SortedMerge.Ordered bySmallestKey (lazyBase.levelFiles level))
    (files : (addedNumbers (snapshotFiles base (List.range kNumLevels) ++
      edits.flatMap VersionEdit.newFiles)).Nodup)
    (lazyFiles : (addedNumbers (snapshotFiles lazyBase (List.range kNumLazyLevels) ++
      edits.flatMap VersionEdit.newFilesLazy)).Nodup) :
    (∀ level < kNumLevels,
      EditsApplied (primaryAllowedSeeks rt) (fun e => e.deletedFiles.elems) VersionEdit.newFiles
        (base.levelFiles level) edits level
        ((applyAll true rt vset (new true base lazyBase) edits).2.saveTo.levelFiles level)) ∧
    (∀ level < kNumLazyLevels,
      EditsApplied (fun _ => lazyAllowedSeeks) (fun e => e.deletedFilesLazy.elems)
        VersionEdit.newFilesLazy (lazyBase.levelFiles level) edits level
        ((applyAll true rt vset (new true base lazyBase) edits).2.saveToLazy.levelFiles level)) := by
  obtain ⟨sameBase, sameLazyBase⟩ := base_applyAll true rt edits vset (new true base lazyBase)
  refine ⟨fun level inRange => ?_, fun level inRange => ?_⟩
  · rw [levelFiles_saveTo _ inRange, levels_applyAll, sameBase]
    exact editsApplied_of_snapshot _ _ _ inRange base edits (ordered level inRange) files
  · rw [levelFiles_saveToLazy _ inRange, lazyLevels_applyAll, sameLazyBase]
    exact editsApplied_of_snapshot _ _ _ inRange lazyBase edits (lazyOrdered level inRange) lazyFiles

def levelTwoBase : Version :=
  { Version.new kNumLevels with
    files := (Version.new kNumLevels).files.set 2
      [FileMetaData.make 3 100 (InternalKey.make [98] 1 .kTypeValue) (InternalKey.make [99] 2 .kTypeValue)] }

/-- A flush to level 0 and lazy level 26, a move of the new file to level 1,
and the deletion of the base file of level 2. -/
theorem saveTo_applyAll_moveDown :
    (∀ level < kNumLevels,
      EditsApplied (primaryAllowedSeeks Runtime.hlsm) (fun e => e.deletedFiles.elems)
        VersionEdit.newFiles (levelTwoBase.levelFiles level)
        [flushEdit, moveDownEdit, VersionEdit.empty.deleteFile 2 3] level
        ((applyAll true Runtime.hlsm (VersionSet.new []) (new true levelTwoBase (Version.new kNumLazyLevels))
          [flushEdit, moveDownEdit, VersionEdit.empty.deleteFile 2 3]).2.saveTo.levelFiles level)) ∧
    (∀ level < kNumLazyLevels,
      EditsApplied (fun _ => lazyAllowedSeeks) (fun e => e.deletedFilesLazy.elems)
        VersionEdit.newFilesLazy ((Version.new kNumLazyLevels).levelFiles level)
        [flushEdit, moveDownEdit, VersionEdit.empty.deleteFile 2 3] level
        ((applyAll true Runtime.hlsm (VersionSet.new []) (new true levelTwoBase (Version.new kNumLazyLevels))
          [flushEdit, moveDownEdit, VersionEdit.empty.deleteFile 2 3]).2.saveToLazy.levelFiles level)) :=
  saveTo_applyAll Runtime.hlsm (VersionSet.new []) levelTwoBase (Version.new kNumLazyLevels)
    [flushEdit, moveDownEdit, VersionEdit.empty.deleteFile 2 3] (by unfold SortedMerge.Ordered; decide)
    (fun level _ => by simp [SortedMerge.Ordered]) (by decide) (by rw [snapshotFiles_new]; decide)

def readdBase : Version :=
  { Version.new kNumLevels with
    files := (Version.new kNumLevels).files.set 1
      [FileMetaData.make 7 100 (InternalKey.make [97] 1 .kTypeValue) (InternalKey.make [98] 2 .kTypeValue)] }

def deleteThenReadd : List VersionEdit :=
  [VersionEdit.empty.deleteFile 1 7,
    VersionEdit.empty.addFile 1 7 100 (InternalKey.make [99] 3 .kTypeValue)
      (InternalKey.make [100] 4 .kTypeValue)]

/-- Through one builder the deleted base file 7 is saved beside the new file 7;
with a builder for each edit, as `LogAndApply` applies them, only the new file
is left. -/
theorem saveTo_keepsDeletedBaseFile :
    ((applyAll true Runtime.hlsm (VersionSet.new []) (new true readdBase (Version.new kNumLazyLevels))
        deleteThenReadd).2.saveTo.levelFiles 1).map (fun f => (f.number, f.smallest)) =
      [(7, InternalKey.make [97] 1 .kTypeValue), (7, InternalKey.make [99] 3 .kTypeValue)] ∧
    ((applyAll true Runtime.hlsm (VersionSet.new [])
        (new true
          (applyAll true Runtime.hlsm (VersionSet.new []) (new true readdBase (Version.new kNumLazyLevels))
            (deleteThenReadd.take 1)).2.saveTo
          (applyAll true Runtime.hlsm (VersionSet.new []) (new true readdBase (Version.new kNumLazyLevels))
            (deleteThenReadd.take 1)).2.saveToLazy)
        (deleteThenReadd.drop 1)).2.saveTo.levelFiles 1).map (fun f => (f.number, f.smallest)) =
      [(7, InternalKey.make [99] 3 .kTypeValue)] := by
  decide

end Builder

end HLsm
