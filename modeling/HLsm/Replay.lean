import HLsm.VersionSet

/-! # Replaying the MANIFEST

`Recover` rebuilds the version set from the MANIFEST that the `LogAndApply`
calls since the database was opened have written: the snapshot of the state
the first call found, then every edit.  It folds all these records into one
builder, while the live set applied each edit to the version before it, with
a fresh builder each time.

On each level a builder is a batch of deleted numbers and added files
(`LevelState.toBatch`); one builder fed the edits one after another holds the
merged batch (`Batch.andThen`), and the library's `applyTo_andThen` says when
the merged batch leaves what the batches leave one at a time: when no edit
adds a file number that the level was already given.  Under that condition
`Recover` yields the live versions, and the compaction pointers, delta
metadata and counters of the last call.

The condition is needed: a file number deleted from a level and added to it
again with other bounds comes back from `Recover` twice, with its old bounds as
well (`recover_keepsReaddedFile`).

Results:
* `recover_logAndApplyAll`: `Recover` after successful `LogAndApply` calls
  reproduces the live version set.
* `recover_keepsReaddedFile`: the run that re-adds a file number. -/
set_option autoImplicit false

namespace HLsm

open HLsm.Coding HLsm.Format

/-! ## Compaction pointers -/

namespace Builder

theorem applyCompactPointers_append (cp : List Bytes) (ps qs : List (Nat × InternalKey)) :
    applyCompactPointers cp (ps ++ qs) = applyCompactPointers (applyCompactPointers cp ps) qs := by
  simp [applyCompactPointers, List.foldl_append]

theorem applyCompactPointers_singleton (cp : List Bytes) (p : Nat × InternalKey) :
    applyCompactPointers cp [p] = cp.set p.1 p.2.encode := rfl

@[simp] theorem length_applyCompactPointers (cp : List Bytes) (ps : List (Nat × InternalKey)) :
    (applyCompactPointers cp ps).length = cp.length := by
  induction ps using List.reverseRecOn with
  | nil => rfl
  | append_singleton qs p ih => simp [applyCompactPointers_append, applyCompactPointers_singleton, ih]

theorem getElem?_applyCompactPointers (cp : List Bytes) (ps : List (Nat × InternalKey)) (i : Nat) :
    (applyCompactPointers cp ps)[i]? =
      cp[i]?.map fun old => ((ps.reverse.find? (·.1 = i)).map (·.2.encode)).getD old := by
  induction ps using List.reverseRecOn with
  | nil => simp [applyCompactPointers]
  | append_singleton qs p ih =>
      rw [applyCompactPointers_append, applyCompactPointers_singleton, List.getElem?_set]
      by_cases here : p.1 = i
      · subst here
        by_cases inRange : p.1 < cp.length <;> simp [inRange]
      · simp [here, ih]

theorem applyCompactPointers_idem (cp : List Bytes) (ps : List (Nat × InternalKey)) :
    applyCompactPointers (applyCompactPointers cp ps) ps = applyCompactPointers cp ps := by
  apply List.ext_getElem?
  intro i
  rw [getElem?_applyCompactPointers, getElem?_applyCompactPointers]
  cases ps.reverse.find? (·.1 = i) <;> cases cp[i]? <;> rfl

theorem find?_filterMap_range {β : Type} (g : Nat → Option (Nat × β))
    (levelOf : ∀ level p, g level = some p → p.1 = level) (k i : Nat) :
    ((List.range k).filterMap g).reverse.find? (·.1 = i) = if i < k then g i else none := by
  induction k with
  | zero => simp
  | succ k ih =>
      rw [List.range_succ, List.filterMap_append, List.reverse_append, List.find?_append, ih]
      cases found : g k with
      | none =>
          by_cases here : i = k
          · simp [here, found]
          · have below : i < k + 1 ↔ i < k := by omega
            simp [below, found]
      | some p =>
          have atK := levelOf k p found
          by_cases here : i = k
          · subst here
            simp [found, atK]
          · have below : i < k + 1 ↔ i < k := by omega
            have other : ¬ p.1 = i := by omega
            simp [found, other, below]

theorem applyCompactPointers_snapshot (cp : List Bytes) (slots : cp.length = kNumLevels) :
    applyCompactPointers (List.replicate kNumLevels [])
      ((List.range kNumLevels).filterMap fun level =>
        let pointer := cp.getD level []
        if pointer.isEmpty then none else some (level, InternalKey.decodeFrom pointer)) = cp := by
  apply List.ext_getElem?
  intro i
  have levelOf : ∀ level (p : Nat × InternalKey),
      (let pointer := cp.getD level []
       if pointer.isEmpty then none else some (level, InternalKey.decodeFrom pointer)) = some p →
        p.1 = level := by
    intro level p found
    dsimp only at found
    split at found
    · cases found
    · cases found
      rfl
  rw [getElem?_applyCompactPointers, find?_filterMap_range _ levelOf]
  by_cases inRange : i < kNumLevels
  · have inCp : i < cp.length := by omega
    by_cases empty : cp[i] = []
    · simp [inRange, inCp, empty]
    · simp [inRange, inCp, empty, InternalKey.encode, InternalKey.decodeFrom]
  · have outCp : cp.length ≤ i := by omega
    simp [inRange, List.getElem?_eq_none outCp]

theorem mem_applyCompactPointers {cp : List Bytes} {ps : List (Nat × InternalKey)} {x : Bytes}
    (member : x ∈ applyCompactPointers cp ps) : x ∈ cp ∨ ∃ p ∈ ps, x = p.2.encode := by
  induction ps using List.reverseRecOn with
  | nil => exact .inl member
  | append_singleton qs p ih =>
      rw [applyCompactPointers_append, applyCompactPointers_singleton] at member
      rcases List.mem_or_eq_of_mem_set member with earlier | here
      · rcases ih earlier with old | ⟨q, inQs, rfl⟩
        · exact .inl old
        · exact .inr ⟨q, by simp [inQs], rfl⟩
      · exact .inr ⟨p, by simp, here⟩

end Builder

namespace VersionSet

/-- Successive `LogAndApply` calls on one version set, as the database makes
them; the first call that fails ends the run. -/
def logAndApplyAll (lazy : Bool) (rt : Runtime) (io : ManifestIO) :
    VersionSet → ManifestStore → List VersionEdit → Status × VersionSet × ManifestStore
  | vset, store, [] => (.ok, vset, store)
  | vset, store, edit :: edits =>
      let (s, vset, store) := logAndApply lazy rt io vset store edit
      if s.isOk then logAndApplyAll lazy rt io vset store edits else (s, vset, store)

/-! ## A call whose writes all succeed -/

section Success

variable (lazy : Bool) (rt : Runtime) (vset : VersionSet) (store : ManifestStore)
  (edit : VersionEdit)

theorem logAndApply_allOk_status : (logAndApply lazy rt .allOk vset store edit).1 = .ok := by
  simp only [logAndApply, writeManifest, openManifest]
  rw [Builder.apply_vset]
  cases vset.descriptorLog <;> simp [writeRecord, ManifestIO.allOk, Status.isOk]

theorem logAndApply_allOk_vset :
    (logAndApply lazy rt .allOk vset store edit).2.1 =
      { (Builder.apply lazy rt vset (Builder.new lazy vset.current vset.currentLazy)
          (vset.prepareEdit edit)).1 with
        descriptorLog := some (vset.descriptorLog.getD vset.manifestFileNumber)
        current := finalize rt (Builder.apply lazy rt vset
          (Builder.new lazy vset.current vset.currentLazy) (vset.prepareEdit edit)).2.saveTo
        currentLazy := if lazy then (Builder.apply lazy rt vset
          (Builder.new lazy vset.current vset.currentLazy) (vset.prepareEdit edit)).2.saveToLazy
          else vset.currentLazy
        logNumber := edit.logNumber.getD vset.logNumber
        prevLogNumber := edit.prevLogNumber.getD vset.prevLogNumber } := by
  simp only [logAndApply, writeManifest, openManifest]
  rw [Builder.apply_vset]
  cases vset.descriptorLog <;> simp [writeRecord, ManifestIO.allOk, Status.isOk]

theorem logAndApply_allOk_store_open {num : UInt64} (opened : vset.descriptorLog = some num) :
    (logAndApply lazy rt .allOk vset store edit).2.2 =
      store.append num ((vset.prepareEdit edit).encodeWith lazy []) := by
  simp only [logAndApply, writeManifest, openManifest]
  rw [Builder.apply_vset]
  simp [opened, writeRecord, ManifestIO.allOk, Status.isOk]

theorem logAndApply_allOk_store_fresh (fresh : vset.descriptorLog = none) :
    (logAndApply lazy rt .allOk vset store edit).2.2 =
      (((store.create vset.manifestFileNumber).append vset.manifestFileNumber
          (writeSnapshot lazy
            { vset with
              compactPointer := Builder.applyCompactPointers vset.compactPointer edit.compactPointers
              deltaMeta := if lazy then edit.deltaMeta else vset.deltaMeta
              descriptorLog := some vset.manifestFileNumber })).append vset.manifestFileNumber
          ((vset.prepareEdit edit).encodeWith lazy [])).setCurrent vset.manifestFileNumber := by
  simp only [logAndApply, writeManifest, openManifest]
  rw [Builder.apply_vset]
  simp [fresh, writeRecord, ManifestIO.allOk, Status.isOk]

theorem namesNoFile_prepareEdit (noFile : edit.NamesNoFile) :
    (vset.prepareEdit edit).NamesNoFile := by
  rw [prepareEdit_eq]
  exact ⟨noFile.1, noFile.2, noFile.3, noFile.4⟩

theorem logAndApply_current_of_namesNoFile (noFile : edit.NamesNoFile)
    (currentLength : vset.current.files.length = kNumLevels) :
    (logAndApply lazy rt .allOk vset store edit).2.1.current =
      finalize rt { Version.new kNumLevels with files := vset.current.files } := by
  rw [logAndApply_allOk_vset,
    Builder.apply_builder_of_namesNoFile lazy rt vset _ (namesNoFile_prepareEdit vset edit noFile),
    Builder.saveTo_new lazy currentLength]

theorem logAndApply_currentLazy_of_namesNoFile (noFile : edit.NamesNoFile)
    (lazyLength : lazy = true → vset.currentLazy.files.length = kNumLazyLevels) :
    (logAndApply lazy rt .allOk vset store edit).2.1.currentLazy =
      if lazy then { Version.new kNumLazyLevels with files := vset.currentLazy.files }
      else vset.currentLazy := by
  rw [logAndApply_allOk_vset,
    Builder.apply_builder_of_namesNoFile lazy rt vset _ (namesNoFile_prepareEdit vset edit noFile)]
  cases lazy with
  | false => rfl
  | true => simp [Builder.saveToLazy_new (lazyLength rfl)]

end Success

/-! ## The snapshot -/

theorem foldl_keeps {α β γ : Type} (field : α → γ) (step : α → β → α)
    (keeps : ∀ a x, field (step a x) = field a) (xs : List β) (a : α) :
    field (xs.foldl step a) = field a := by
  induction xs generalizing a with
  | nil => rfl
  | cons x xs ih => rw [List.foldl_cons, ih, keeps]

/-- The files of a version on the given levels, as `WriteSnapshot` adds them
to its edit. -/
def snapshotFiles (v : Version) (levels : List Nat) : List (Nat × FileMetaData) :=
  levels.flatMap fun level => (v.levelFiles level).map fun f =>
    (level, FileMetaData.make f.number f.fileSize f.smallest f.largest)

section Snapshot

variable (lazy : Bool) (vset : VersionSet)

theorem pointerLoop_keeps {γ : Type} (field : VersionEdit → γ)
    (pointer : ∀ e level key, field (e.setCompactPointer level key) = field e)
    (levels : List Nat) (e : VersionEdit) :
    field (levels.foldl (fun e level =>
        let pointer := vset.compactPointer.getD level []
        if pointer.isEmpty then e else e.setCompactPointer level (InternalKey.decodeFrom pointer))
      e) = field e :=
  foldl_keeps field _ (fun e level => by dsimp only; split <;> simp [pointer]) levels e

theorem fileLoop_keeps {γ : Type} (field : VersionEdit → γ)
    (file : ∀ e level number fileSize smallest largest,
      field (e.addFile level number fileSize smallest largest) = field e)
    (levels : List Nat) (files : Nat → List FileMetaData) (e : VersionEdit) :
    field (levels.foldl (fun e level => (files level).foldl
        (fun e f => e.addFile level f.number f.fileSize f.smallest f.largest) e) e) = field e :=
  foldl_keeps field _ (fun e level => foldl_keeps field _ (fun e _ => file e level _ _ _ _) _ e) _ e

theorem lazyLoop_keeps {γ : Type} (field : VersionEdit → γ)
    (lazyFile : ∀ e level number fileSize smallest largest,
      field (e.addLazyFile level number fileSize smallest largest) = field e)
    (levels : List Nat) (files : Nat → List FileMetaData) (e : VersionEdit) :
    field (levels.foldl (fun e level => (files level).foldl
        (fun e f => e.addLazyFile level f.number f.fileSize f.smallest f.largest) e) e) = field e :=
  foldl_keeps field _ (fun e level => foldl_keeps field _ (fun e _ => lazyFile e level _ _ _ _) _ e)
    _ e

theorem snapshotEdit_keeps {γ : Type} (field : VersionEdit → γ)
    (pointer : ∀ e level key, field (e.setCompactPointer level key) = field e)
    (delta : ∀ e metas, field (e.setDeltaLevels metas) = field e)
    (file : ∀ e level number fileSize smallest largest,
      field (e.addFile level number fileSize smallest largest) = field e)
    (lazyFile : ∀ e level number fileSize smallest largest,
      field (e.addLazyFile level number fileSize smallest largest) = field e) :
    field (snapshotEdit lazy vset) =
      field (VersionEdit.empty.setComparatorName vset.userComparatorName) := by
  unfold snapshotEdit
  cases lazy
  · simp only [Bool.false_eq_true, if_false]
    rw [fileLoop_keeps field file, pointerLoop_keeps vset field pointer]
  · simp only [if_true]
    rw [lazyLoop_keeps field lazyFile, fileLoop_keeps field file, delta,
      pointerLoop_keeps vset field pointer]

@[simp] theorem snapshotEdit_comparator :
    (snapshotEdit lazy vset).comparator = some vset.userComparatorName :=
  snapshotEdit_keeps lazy vset VersionEdit.comparator (fun _ _ _ => rfl) (fun _ _ => rfl)
    (fun _ _ _ _ _ _ => rfl) (fun _ _ _ _ _ _ => rfl)

@[simp] theorem snapshotEdit_deletedFiles : (snapshotEdit lazy vset).deletedFiles = ∅ :=
  snapshotEdit_keeps lazy vset VersionEdit.deletedFiles (fun _ _ _ => rfl) (fun _ _ => rfl)
    (fun _ _ _ _ _ _ => rfl) (fun _ _ _ _ _ _ => rfl)

@[simp] theorem snapshotEdit_deletedFilesLazy : (snapshotEdit lazy vset).deletedFilesLazy = ∅ :=
  snapshotEdit_keeps lazy vset VersionEdit.deletedFilesLazy (fun _ _ _ => rfl) (fun _ _ => rfl)
    (fun _ _ _ _ _ _ => rfl) (fun _ _ _ _ _ _ => rfl)

theorem compactPointers_pointerLoop (levels : List Nat) (e : VersionEdit) :
    (levels.foldl (fun e level =>
        let pointer := vset.compactPointer.getD level []
        if pointer.isEmpty then e else e.setCompactPointer level (InternalKey.decodeFrom pointer))
      e).compactPointers =
      e.compactPointers ++ levels.filterMap fun level =>
        let pointer := vset.compactPointer.getD level []
        if pointer.isEmpty then none else some (level, InternalKey.decodeFrom pointer) := by
  induction levels generalizing e with
  | nil => simp
  | cons level rest ih =>
      rw [List.foldl_cons, ih]
      dsimp only
      split <;> simp_all [VersionEdit.setCompactPointer]

theorem newFiles_fileLoop (levels : List Nat) (files : Nat → List FileMetaData) (e : VersionEdit) :
    (levels.foldl (fun e level => (files level).foldl
        (fun e f => e.addFile level f.number f.fileSize f.smallest f.largest) e) e).newFiles =
      e.newFiles ++ levels.flatMap fun level => (files level).map fun f =>
        (level, FileMetaData.make f.number f.fileSize f.smallest f.largest) := by
  have inner : ∀ (level : Nat) (fs : List FileMetaData) (e : VersionEdit),
      (fs.foldl (fun e f => e.addFile level f.number f.fileSize f.smallest f.largest) e).newFiles =
        e.newFiles ++ fs.map fun f => (level, FileMetaData.make f.number f.fileSize f.smallest f.largest) := by
    intro level fs
    induction fs with
    | nil => simp
    | cons f fs ih =>
        intro e
        rw [List.foldl_cons, ih]
        simp [VersionEdit.addFile]
  induction levels generalizing e with
  | nil => simp
  | cons level rest ih => simp [ih, inner]

theorem newFilesLazy_lazyLoop (levels : List Nat) (files : Nat → List FileMetaData)
    (e : VersionEdit) :
    (levels.foldl (fun e level => (files level).foldl
        (fun e f => e.addLazyFile level f.number f.fileSize f.smallest f.largest) e) e).newFilesLazy =
      e.newFilesLazy ++ levels.flatMap fun level => (files level).map fun f =>
        (level, FileMetaData.make f.number f.fileSize f.smallest f.largest) := by
  have inner : ∀ (level : Nat) (fs : List FileMetaData) (e : VersionEdit),
      (fs.foldl (fun e f => e.addLazyFile level f.number f.fileSize f.smallest f.largest) e).newFilesLazy =
        e.newFilesLazy ++ fs.map fun f =>
          (level, FileMetaData.make f.number f.fileSize f.smallest f.largest) := by
    intro level fs
    induction fs with
    | nil => simp
    | cons f fs ih =>
        intro e
        rw [List.foldl_cons, ih]
        simp [VersionEdit.addLazyFile]
  induction levels generalizing e with
  | nil => simp
  | cons level rest ih => simp [ih, inner]

theorem snapshotEdit_compactPointers :
    (snapshotEdit lazy vset).compactPointers = (List.range kNumLevels).filterMap fun level =>
      let pointer := vset.compactPointer.getD level []
      if pointer.isEmpty then none else some (level, InternalKey.decodeFrom pointer) := by
  unfold snapshotEdit
  cases lazy
  · simp only [Bool.false_eq_true, if_false]
    rw [fileLoop_keeps VersionEdit.compactPointers (fun _ _ _ _ _ _ => rfl), compactPointers_pointerLoop]
    rfl
  · simp only [if_true]
    rw [lazyLoop_keeps VersionEdit.compactPointers (fun _ _ _ _ _ _ => rfl), fileLoop_keeps VersionEdit.compactPointers (fun _ _ _ _ _ _ => rfl)]
    simp only [VersionEdit.setDeltaLevels]
    rw [compactPointers_pointerLoop]
    rfl

theorem snapshotEdit_newFiles :
    (snapshotEdit lazy vset).newFiles = snapshotFiles vset.current (List.range kNumLevels) := by
  unfold snapshotEdit
  cases lazy
  · simp only [Bool.false_eq_true, if_false]
    rw [newFiles_fileLoop, pointerLoop_keeps vset VersionEdit.newFiles (fun _ _ _ => rfl)]
    rfl
  · simp only [if_true]
    rw [lazyLoop_keeps VersionEdit.newFiles (fun _ _ _ _ _ _ => rfl), newFiles_fileLoop]
    simp only [VersionEdit.setDeltaLevels]
    rw [pointerLoop_keeps vset VersionEdit.newFiles (fun _ _ _ => rfl)]
    rfl

theorem snapshotEdit_newFilesLazy :
    (snapshotEdit lazy vset).newFilesLazy =
      if lazy then snapshotFiles vset.currentLazy (List.range kNumLazyLevels) else [] := by
  unfold snapshotEdit
  cases lazy
  · simp only [Bool.false_eq_true, if_false]
    rw [fileLoop_keeps VersionEdit.newFilesLazy (fun _ _ _ _ _ _ => rfl), pointerLoop_keeps vset VersionEdit.newFilesLazy (fun _ _ _ => rfl)]
    rfl
  · simp only [if_true]
    rw [newFilesLazy_lazyLoop, fileLoop_keeps VersionEdit.newFilesLazy (fun _ _ _ _ _ _ => rfl)]
    simp only [VersionEdit.setDeltaLevels]
    rw [pointerLoop_keeps vset VersionEdit.newFilesLazy (fun _ _ _ => rfl)]
    rfl

end Snapshot

/-! ## `Recover` on the records the calls wrote -/

theorem apply_withoutLazy (rt : Runtime) (vset : VersionSet) (b : Builder) (e : VersionEdit) :
    Builder.apply false rt vset b e.withoutLazy = Builder.apply false rt vset b e := rfl

@[simp] theorem applyEdit_status (lazy : Bool) (rt : Runtime) (st : RecoverState)
    (e : VersionEdit) : (st.applyEdit lazy rt e).status = st.status := rfl

@[simp] theorem applyEdit_userComparatorName (lazy : Bool) (rt : Runtime) (st : RecoverState)
    (e : VersionEdit) :
    (st.applyEdit lazy rt e).vset.userComparatorName = st.vset.userComparatorName := by
  simp [RecoverState.applyEdit, Builder.apply_vset]

theorem recoverRecord_encodeWith (lazy : Bool) (rt : Runtime) (st : RecoverState)
    (e : VersionEdit) (readable : e.Readable)
    (sameComparator : ∀ name ∈ e.comparator, name = st.vset.userComparatorName) :
    recoverRecord lazy rt st (e.encodeWith lazy []) = some (st.applyEdit lazy rt e) := by
  -- the basic reader returns the edit without its lazy part, which `Apply` ignores
  have flavour : st.applyEdit lazy rt (if lazy then e else e.withoutLazy) = st.applyEdit lazy rt e := by
    cases lazy with
    | true => rfl
    | false => simp only [RecoverState.applyEdit, Bool.false_eq_true, if_false, apply_withoutLazy]; rfl
  have sameFields : (if lazy then e else e.withoutLazy).comparator = e.comparator := by
    cases lazy <;> rfl
  unfold recoverRecord
  rw [decodeWith_encodeWith lazy e readable]
  simp only
  rw [sameFields, flavour]
  cases named : e.comparator with
  | none => rfl
  | some name => simp [sameComparator name named]

theorem recoverRecords_failed (lazy : Bool) (rt : Runtime) (st : RecoverState)
    (failed : st.status.isOk = false) (records : List Bytes) :
    recoverRecords lazy rt st records = some st := by
  cases records <;> simp [recoverRecords, failed]

theorem recoverRecords_append (lazy : Bool) (rt : Runtime) (records more : List Bytes) :
    ∀ st : RecoverState, recoverRecords lazy rt st (records ++ more) =
      (recoverRecords lazy rt st records).bind fun st => recoverRecords lazy rt st more := by
  induction records with
  | nil => intro st; rfl
  | cons record rest ih =>
      intro st
      by_cases ok : st.status.isOk
      · simp only [List.cons_append, recoverRecords, ok, if_true]
        cases recoverRecord lazy rt st record with
        | none => rfl
        | some next => exact ih next
      · have failed : st.status.isOk = false := Bool.eq_false_iff.mpr ok
        simp [recoverRecords, failed, recoverRecords_failed]

end VersionSet

/-! ## The levels, one edit at a time -/

/-- The levels of a live version against the levels of `Recover`'s builder:
each live level holds what the builder's batch for it leaves, in strictly
increasing order, and the builder holds a file only under a level and number
in `seen`. -/
structure LevelsReplay (levelNum : Nat) (v : Version) (levels : List LevelState)
    (seen : List (Nat × UInt64)) : Prop where
  length : levels.length = levelNum
  files : ∀ level < levelNum, {f | f ∈ v.levelFiles level} =
    (levels.getD level .empty).toBatch.applyTo FileMetaData.number ∅
  sorted : ∀ level < levelNum, SortedSet.Sorted bySmallestKey (v.levelFiles level)
  numbers : ∀ level < levelNum, ∀ f ∈ (levels.getD level .empty).addedFiles.elems,
    (level, f.number) ∈ seen

namespace LevelsReplay

open Builder

variable {levelNum : Nat} {v v' : Version} {levels : List LevelState} {seen : List (Nat × UInt64)}

theorem getD_replicate_empty (n level : Nat) :
    (List.replicate n LevelState.empty).getD level .empty = .empty := by
  simp only [List.getD_eq_getElem?_getD, List.getElem?_replicate]
  split <;> rfl

theorem mem_added_of_mem (replay : LevelsReplay levelNum v levels seen) {level : Nat}
    (inRange : level < levelNum) {f : FileMetaData} (member : f ∈ v.levelFiles level) :
    f ∈ (levels.getD level .empty).toBatch.added := by
  have inBatch : f ∈ (levels.getD level .empty).toBatch.applyTo FileMetaData.number ∅ := by
    rw [← replay.files level inRange]
    exact member
  simpa using inBatch.1

theorem step (replay : LevelsReplay levelNum v levels seen) (seeks : FileMetaData → Int)
    (dels : List (Nat × UInt64)) (adds : List (Nat × FileMetaData))
    (distinct : (addedNumbers adds).Nodup)
    (unseen : ∀ p ∈ adds, (p.1, p.2.number) ∉ seen)
    (saved : ∀ level < levelNum, v'.levelFiles level = saveLevel (v.levelFiles level)
      ((addAll seeks adds (dels.foldl deleteIn (List.replicate levelNum .empty))).getD level .empty)) :
    LevelsReplay levelNum v' (addAll seeks adds (dels.foldl deleteIn levels))
      (seen ++ addedNumbers adds) := by
  -- the additions of the edit on one level
  have addedNumber : ∀ {level : Nat} {a : FileMetaData}, a ∈ addedAt adds seeks level →
      (level, a.number) ∈ addedNumbers adds := by
    rintro level a ⟨p, member, atLevel, rfl⟩
    exact List.mem_map.mpr ⟨p, member, by simp [atLevel]⟩
  have notSeen : ∀ {level : Nat} {a : FileMetaData}, a ∈ addedAt adds seeks level →
      (level, a.number) ∉ seen := by
    rintro level a ⟨p, member, atLevel, rfl⟩
    simpa [atLevel] using unseen p member
  have freshIn : ∀ level < levelNum, FreshAdds adds (levels.getD level .empty) level := by
    intro level inRange
    refine ⟨distinct, fun p member atLevel ⟨f, inBatch, same⟩ => unseen p member ?_⟩
    have seenAt := replay.numbers level inRange f inBatch
    rwa [same, ← atLevel] at seenAt
  have freshOne : ∀ level, FreshAdds adds ((List.replicate levelNum LevelState.empty).getD level .empty)
      level := by
    intro level
    refine ⟨distinct, fun p _ _ => ?_⟩
    rw [getD_replicate_empty, toBatch_empty]
    simp [Batch.empty]
  -- what the fresh builder and `Recover`'s builder hold on each level
  have oneBatch : ∀ level < levelNum,
      ((addAll seeks adds (dels.foldl deleteIn (List.replicate levelNum .empty))).getD level
        .empty).toBatch = Batch.empty.andThen FileMetaData.number (editBatch dels adds seeks level) := by
    intro level inRange
    rw [toBatch_deleteIn_addAll seeks dels adds _ level (by rwa [List.length_replicate])
      (freshOne level), getD_replicate_empty, toBatch_empty]
  have recBatch : ∀ level < levelNum,
      ((addAll seeks adds (dels.foldl deleteIn levels)).getD level .empty).toBatch =
        (levels.getD level .empty).toBatch.andThen FileMetaData.number
          (editBatch dels adds seeks level) := fun level inRange =>
    toBatch_deleteIn_addAll seeks dels adds levels level (by rwa [replay.length])
      (freshIn level inRange)
  refine ⟨?_, ?_, ?_, ?_⟩
  · rw [length_addAll, length_foldl_deleteIn, replay.length]
  · intro level inRange
    -- the edit adds no number the level already holds
    have apart : Disjoint (FileMetaData.number '' (editBatch dels adds seeks level).added)
        (FileMetaData.number '' (∅ ∪ (levels.getD level .empty).toBatch.added)) := by
      rw [Set.disjoint_left]
      rintro n ⟨a, added, rfl⟩ ⟨f, inBatch, same⟩
      simp only [Set.empty_union] at inBatch
      exact notSeen added (same ▸ replay.numbers level inRange f inBatch)
    rw [saved level inRange, saveLevel_eq_applyTo, oneBatch level inRange, recBatch level inRange,
      Batch.applyTo_andThen _ _ _ apart, replay.files level inRange]
    rfl
  · intro level inRange
    rw [saved level inRange]
    apply saveLevel_strict _ (replay.sorted level inRange)
    intro b inBase a inAdded same
    have seenBefore := replay.numbers level inRange b (replay.mem_added_of_mem inRange inBase)
    have added : a ∈ ((addAll seeks adds (dels.foldl deleteIn (List.replicate levelNum .empty))).getD
        level .empty).toBatch.added := inAdded
    rw [oneBatch level inRange] at added
    simp only [Batch.andThen, Batch.empty, Set.empty_union, editBatch] at added
    exact notSeen added (same ▸ seenBefore)
  · intro level inRange f inAdded
    have added : f ∈ ((addAll seeks adds (dels.foldl deleteIn levels)).getD level
        .empty).toBatch.added := inAdded
    rw [recBatch level inRange] at added
    rcases added with before | new
    · exact List.mem_append_left _ (replay.numbers level inRange f before)
    · exact List.mem_append_right _ (addedNumber new)

/-- The snapshot, applied to a fresh builder, rebuilds every level of the
version it was taken of, when each file carries the `allowed_seeks` that
`Apply` gives. -/
theorem snapshot (levelNum : Nat) (v : Version) (seeks : FileMetaData → Int)
    (seeksOfMake : ∀ f : FileMetaData,
      seeks (FileMetaData.make f.number f.fileSize f.smallest f.largest) = seeks f)
    (sorted : ∀ level < levelNum, SortedSet.Sorted bySmallestKey (v.levelFiles level))
    (fresh : ∀ level < levelNum, ∀ f ∈ v.levelFiles level, f.allowedSeeks = seeks f)
    (distinct : (addedNumbers (VersionSet.snapshotFiles v (List.range levelNum))).Nodup) :
    LevelsReplay levelNum v
      (addAll seeks (VersionSet.snapshotFiles v (List.range levelNum)) (List.replicate levelNum .empty))
      (addedNumbers (VersionSet.snapshotFiles v (List.range levelNum))) := by
  generalize entriesDef : VersionSet.snapshotFiles v (List.range levelNum) = entries at distinct ⊢
  -- each level's additions are that level's files
  have added : ∀ level < levelNum, addedAt entries seeks level = {f | f ∈ v.levelFiles level} := by
    intro level inRange
    ext f
    simp only [addedAt, ← entriesDef, VersionSet.snapshotFiles, List.mem_flatMap, List.mem_range,
      List.mem_map, Set.mem_ofPred_eq]
    constructor
    · rintro ⟨p, ⟨l, _, g, inLevel, rfl⟩, rfl, rfl⟩
      have same : { FileMetaData.make g.number g.fileSize g.smallest g.largest with
          allowedSeeks := seeks (FileMetaData.make g.number g.fileSize g.smallest g.largest) } = g := by
        rw [seeksOfMake, ← fresh l (by omega) g inLevel]
        rfl
      rw [same]
      exact inLevel
    · intro inLevel
      refine ⟨(level, FileMetaData.make f.number f.fileSize f.smallest f.largest),
        ⟨level, inRange, f, inLevel, rfl⟩, rfl, ?_⟩
      rw [seeksOfMake, ← fresh level inRange f inLevel]
      rfl
  have batch : ∀ level < levelNum, ((addAll seeks entries (List.replicate levelNum .empty)).getD
      level .empty).toBatch = Batch.empty.andThen FileMetaData.number (editBatch [] entries seeks level) := by
    intro level inRange
    have fresh : FreshAdds entries ((List.replicate levelNum LevelState.empty).getD level .empty)
        level := by
      refine ⟨distinct, fun p _ _ => ?_⟩
      rw [getD_replicate_empty, toBatch_empty]
      simp [Batch.empty]
    have := toBatch_deleteIn_addAll seeks [] entries _ level (by rwa [List.length_replicate]) fresh
    rwa [getD_replicate_empty, toBatch_empty] at this
  refine ⟨?_, ?_, sorted, ?_⟩
  · rw [length_addAll, List.length_replicate]
  · intro level inRange
    rw [batch level inRange, ← added level inRange]
    ext f
    simp [Batch.andThen, Batch.empty, editBatch]
  · intro level inRange f inAdded
    have inBatch : f ∈ ((addAll seeks entries (List.replicate levelNum .empty)).getD level
        .empty).toBatch.added := inAdded
    rw [batch level inRange] at inBatch
    simp only [Batch.andThen, Batch.empty, Set.empty_union, editBatch] at inBatch
    obtain ⟨p, member, atLevel, rfl⟩ := inBatch
    exact List.mem_map.mpr ⟨p, member, by simp [atLevel]⟩

theorem saveLevel_nil (replay : LevelsReplay levelNum v levels seen) {level : Nat}
    (inRange : level < levelNum) : saveLevel [] (levels.getD level .empty) = v.levelFiles level := by
  have sets : {f | f ∈ saveLevel [] (levels.getD level .empty)} = {f | f ∈ v.levelFiles level} := by
    rw [saveLevel_eq_applyTo, replay.files level inRange]
    simp
  exact SortedSet.Sorted.eq_of_mem_iff
    (saveLevel_strict _ List.Pairwise.nil (fun _ absent => by cases absent))
    (replay.sorted level inRange) (fun f => Set.ext_iff.mp sets f)

theorem saveLevels_new (replay : LevelsReplay levelNum v levels seen)
    (filesLength : v.files.length = levelNum) :
    saveLevels (Version.new levelNum) levels levelNum = v.files := by
  apply List.ext_getElem
  · simp [saveLevels, filesLength]
  · intro i below _
    have inRange : i < levelNum := by simpa [saveLevels] using below
    simp only [saveLevels, List.getElem_map, List.getElem_range]
    rw [Version.levelFiles_new, replay.saveLevel_nil inRange]
    simp [Version.levelFiles, List.getD_eq_getElem?_getD, List.getElem?_eq_getElem (by omega : i < v.files.length)]

end LevelsReplay

/-! ## `Recover`'s state against the live set -/

section ApplyEdit

variable (lazy : Bool) (rt : Runtime) (st : RecoverState) (e : VersionEdit)

theorem applyEdit_vset : (st.applyEdit lazy rt e).vset = (Builder.apply lazy rt st.vset st.builder e).1 :=
  rfl

theorem applyEdit_builder :
    (st.applyEdit lazy rt e).builder = (Builder.apply lazy rt st.vset st.builder e).2 := rfl

@[simp] theorem applyEdit_logNumber : (st.applyEdit lazy rt e).logNumber = e.logNumber.or st.logNumber :=
  rfl

@[simp] theorem applyEdit_prevLogNumber :
    (st.applyEdit lazy rt e).prevLogNumber = e.prevLogNumber.or st.prevLogNumber := rfl

@[simp] theorem applyEdit_nextFile :
    (st.applyEdit lazy rt e).nextFile = e.nextFileNumber.or st.nextFile := rfl

@[simp] theorem applyEdit_lastSequence :
    (st.applyEdit lazy rt e).lastSequence = e.lastSequence.or st.lastSequence := rfl

end ApplyEdit

/-- What `Recover` has rebuilt so far of the live levels: its status is still
OK, its builder holds the live levels over empty base versions, and it reads
the comparator name of the live set. -/
structure ReplayLevels (lazy : Bool) (live : VersionSet) (st : RecoverState)
    (seen seenLazy : List (Nat × UInt64)) : Prop where
  ok : st.status = .ok
  levels : LevelsReplay kNumLevels live.current st.builder.levels seen
  lazyLevels : lazy = true →
    LevelsReplay kNumLazyLevels live.currentLazy st.builder.lazyLevels seenLazy
  base : st.builder.base = Version.new kNumLevels
  lazyBase : st.builder.lazyBase = Version.new kNumLazyLevels
  name : st.vset.userComparatorName = live.userComparatorName

/-- After a call: the levels as above, the live versions as `SaveTo` built
them, and the compaction pointers, delta metadata and counters of the call. -/
structure Replays (lazy : Bool) (rt : Runtime) (live : VersionSet) (st : RecoverState)
    (seen seenLazy : List (Nat × UInt64)) : Prop extends ReplayLevels lazy live st seen seenLazy where
  current : live.current = finalize rt { Version.new kNumLevels with files := live.current.files }
  currentLength : live.current.files.length = kNumLevels
  currentLazy : lazy = true →
    live.currentLazy = { Version.new kNumLazyLevels with files := live.currentLazy.files }
  currentLazyLength : lazy = true → live.currentLazy.files.length = kNumLazyLevels
  compactPointer : st.vset.compactPointer = live.compactPointer
  deltaMeta : lazy = true → st.vset.deltaMeta = live.deltaMeta
  logNumber : st.logNumber = some live.logNumber
  prevLogNumber : st.prevLogNumber = some live.prevLogNumber
  nextFile : st.nextFile = some live.nextFileNumber
  lastSequence : st.lastSequence = some live.lastSequence

/-- A version set as `Recover` leaves it for `DB::Open`: no MANIFEST open
yet, one compaction-pointer slot per level, every level in strictly increasing
order, each file with the `allowed_seeks` that `Apply` gives, and every key and
the comparator name short enough for `EncodeTo`. -/
structure Reopened (lazy : Bool) (rt : Runtime) (vset : VersionSet) : Prop where
  noManifest : vset.descriptorLog = none
  nameShort : vset.userComparatorName.length < 2 ^ 32
  pointerSlots : vset.compactPointer.length = kNumLevels
  pointersShort : ∀ p ∈ vset.compactPointer, p.length < 2 ^ 32
  sorted : ∀ level < kNumLevels, SortedSet.Sorted bySmallestKey (vset.current.levelFiles level)
  seeks : ∀ level < kNumLevels, ∀ f ∈ vset.current.levelFiles level,
    f.allowedSeeks = Builder.primaryAllowedSeeks rt f
  keysShort : ∀ level < kNumLevels, ∀ f ∈ vset.current.levelFiles level,
    f.smallest.rep.length < 2 ^ 32 ∧ f.largest.rep.length < 2 ^ 32
  lazySorted : lazy = true → ∀ level < kNumLazyLevels,
    SortedSet.Sorted bySmallestKey (vset.currentLazy.levelFiles level)
  lazySeeks : lazy = true → ∀ level < kNumLazyLevels, ∀ f ∈ vset.currentLazy.levelFiles level,
    f.allowedSeeks = Builder.lazyAllowedSeeks
  lazyKeysShort : lazy = true → ∀ level < kNumLazyLevels, ∀ f ∈ vset.currentLazy.levelFiles level,
    f.smallest.rep.length < 2 ^ 32 ∧ f.largest.rep.length < 2 ^ 32

theorem Reopened.new (lazy : Bool) (rt : Runtime) {name : Bytes} (nameShort : name.length < 2 ^ 32) :
    Reopened lazy rt (VersionSet.new name) where
  noManifest := rfl
  nameShort := nameShort
  pointerSlots := List.length_replicate
  pointersShort := fun p member => by
    rw [List.eq_of_mem_replicate member]
    decide
  sorted := fun level _ => by simp [VersionSet.new, SortedSet.Sorted]
  seeks := fun level _ f member => by simp [VersionSet.new] at member
  keysShort := fun level _ f member => by simp [VersionSet.new] at member
  lazySorted := fun _ level _ => by simp [VersionSet.new, SortedSet.Sorted]
  lazySeeks := fun _ level _ f member => by simp [VersionSet.new] at member
  lazyKeysShort := fun _ level _ f member => by simp [VersionSet.new] at member

namespace VersionSet

theorem readable_prepareEdit (vset : VersionSet) {e : VersionEdit} (readable : e.Readable) :
    (vset.prepareEdit e).Readable := by
  rw [prepareEdit_eq]
  exact ⟨readable.1, readable.2, readable.3, readable.4, readable.5, readable.6, readable.7,
    readable.8, readable.9⟩

theorem snapshotEdit_readable (lazy : Bool) (vset : VersionSet)
    (nameShort : vset.userComparatorName.length < 2 ^ 32)
    (pointersShort : ∀ p ∈ vset.compactPointer, p.length < 2 ^ 32)
    (keysShort : ∀ level < kNumLevels, ∀ f ∈ vset.current.levelFiles level,
      f.smallest.rep.length < 2 ^ 32 ∧ f.largest.rep.length < 2 ^ 32)
    (lazyKeysShort : lazy = true → ∀ level < kNumLazyLevels, ∀ f ∈ vset.currentLazy.levelFiles level,
      f.smallest.rep.length < 2 ^ 32 ∧ f.largest.rep.length < 2 ^ 32) :
    (snapshotEdit lazy vset).Readable := by
  constructor
  · simpa using nameShort
  · rw [snapshotEdit_compactPointers]
    intro p member
    simp only [List.mem_filterMap, List.mem_range] at member
    obtain ⟨level, inRange, found⟩ := member
    split at found
    · cases found
    · cases found
      exact inRange
  · rw [snapshotEdit_compactPointers]
    intro p member
    simp only [List.mem_filterMap, List.mem_range] at member
    obtain ⟨level, _, found⟩ := member
    split at found
    · cases found
    · cases found
      show (vset.compactPointer.getD level []).length < 2 ^ 32
      rw [List.getD_eq_getElem?_getD]
      cases slot : vset.compactPointer[level]? with
      | none => simp
      | some pointer => exact pointersShort pointer (List.mem_of_getElem? slot)
  · simp
  · simp
  · rw [snapshotEdit_newFiles]
    intro p member
    simp only [snapshotFiles, List.mem_flatMap, List.mem_range, List.mem_map] at member
    obtain ⟨level, inRange, f, _, rfl⟩ := member
    exact inRange
  · rw [snapshotEdit_newFiles]
    intro p member
    simp only [snapshotFiles, List.mem_flatMap, List.mem_range, List.mem_map] at member
    obtain ⟨level, inRange, f, inLevel, rfl⟩ := member
    exact keysShort level inRange f inLevel
  · rw [snapshotEdit_newFilesLazy]
    intro p member
    cases lazy
    · simp at member
    · simp only [if_true, snapshotFiles, List.mem_flatMap, List.mem_range, List.mem_map] at member
      obtain ⟨level, inRange, f, _, rfl⟩ := member
      exact inRange
  · rw [snapshotEdit_newFilesLazy]
    intro p member
    cases lazy
    · simp at member
    · simp only [if_true, snapshotFiles, List.mem_flatMap, List.mem_range, List.mem_map] at member
      obtain ⟨level, inRange, f, inLevel, rfl⟩ := member
      exact lazyKeysShort rfl level inRange f inLevel

end VersionSet

namespace ReplayLevels

open Builder VersionSet

variable {lazy : Bool} {rt : Runtime} {live : VersionSet} {st : RecoverState}
  {seen seenLazy : List (Nat × UInt64)}

/-- One successful `LogAndApply` call, and `Recover` reading its record: the
live set and `Recover`'s state then agree on everything the call wrote. -/
theorem logAndApply (replay : ReplayLevels lazy live st seen seenLazy) (store : ManifestStore)
    (edit : VersionEdit)
    (pointers : applyCompactPointers st.vset.compactPointer edit.compactPointers =
      applyCompactPointers live.compactPointer edit.compactPointers)
    (distinct : (addedNumbers edit.newFiles).Nodup)
    (unseen : ∀ p ∈ edit.newFiles, (p.1, p.2.number) ∉ seen)
    (distinctLazy : lazy = true → (addedNumbers edit.newFilesLazy).Nodup)
    (unseenLazy : lazy = true → ∀ p ∈ edit.newFilesLazy, (p.1, p.2.number) ∉ seenLazy) :
    Replays lazy rt (logAndApply lazy rt .allOk live store edit).2.1
      (st.applyEdit lazy rt (live.prepareEdit edit))
      (seen ++ addedNumbers edit.newFiles) (seenLazy ++ addedNumbers edit.newFilesLazy) := by
  rw [logAndApply_allOk_vset, Builder.apply_vset]
  -- the builder of the live call starts from the live versions and empty levels
  generalize liveBuilder : (Builder.apply lazy rt live (Builder.new lazy live.current live.currentLazy)
    (live.prepareEdit edit)).2 = b
  have bLevels : b.levels = addAll (primaryAllowedSeeks rt) edit.newFiles
      (edit.deletedFiles.elems.foldl deleteIn (List.replicate kNumLevels .empty)) := by
    rw [← liveBuilder, apply_levels]
    simp [Builder.new]
  have bBase : b.base = live.current := by rw [← liveBuilder, apply_base]; rfl
  have recVset := applyEdit_vset lazy rt st (live.prepareEdit edit)
  rw [Builder.apply_vset] at recVset
  have recLevels : (st.applyEdit lazy rt (live.prepareEdit edit)).builder.levels =
      addAll (primaryAllowedSeeks rt) edit.newFiles (edit.deletedFiles.elems.foldl deleteIn st.builder.levels) := by
    rw [applyEdit_builder, apply_levels]
    simp
  refine ⟨⟨?ok, ?levels, ?lazyLevels, ?base, ?lazyBase, ?name⟩, ?current, ?currentLength,
    ?currentLazy, ?currentLazyLength, ?compactPointer, ?deltaMeta, ?logNumber, ?prevLogNumber,
    ?nextFile, ?lastSequence⟩
  case ok => simpa using replay.ok
  case levels =>
    rw [recLevels]
    apply replay.levels.step (primaryAllowedSeeks rt) edit.deletedFiles.elems edit.newFiles distinct unseen
    intro level inRange
    simp only [Version.levelFiles, finalize_files]
    rw [← Version.levelFiles, levelFiles_saveTo b inRange, bBase, bLevels]
    rfl
  case lazyLevels =>
    intro lazyOn
    subst lazyOn
    have bLazy : b.lazyLevels = addAll (fun _ => lazyAllowedSeeks) edit.newFilesLazy
        (edit.deletedFilesLazy.elems.foldl deleteIn (List.replicate kNumLazyLevels .empty)) := by
      rw [← liveBuilder, apply_lazyLevels]
      simp [Builder.new]
    have bLazyBase : b.lazyBase = live.currentLazy := by rw [← liveBuilder, apply_lazyBase]; rfl
    rw [applyEdit_builder, apply_lazyLevels]
    simp only [prepareEdit_newFilesLazy, prepareEdit_deletedFilesLazy]
    apply (replay.lazyLevels rfl).step (fun _ => lazyAllowedSeeks) edit.deletedFilesLazy.elems
      edit.newFilesLazy (distinctLazy rfl) (unseenLazy rfl)
    intro level inRange
    simp only [if_true]
    rw [levelFiles_saveToLazy b inRange, bLazyBase, bLazy]
  case base => rw [applyEdit_builder, apply_base, replay.base]
  case lazyBase => rw [applyEdit_builder, apply_lazyBase, replay.lazyBase]
  case name => rw [recVset]; exact replay.name
  case current => simp only [finalize_files]; rfl
  case currentLength => simp [saveTo, saveLevels]
  case currentLazy => intro lazyOn; subst lazyOn; rfl
  case currentLazyLength => intro lazyOn; subst lazyOn; simp [saveToLazy, saveLevels]
  case compactPointer => rw [recVset]; simpa using pointers
  case deltaMeta => intro lazyOn; subst lazyOn; rw [recVset]; simp
  case logNumber => simp
  case prevLogNumber => simp
  case nextFile => simp
  case lastSequence => simp

end ReplayLevels

/-- What `Recover` gives back of a live set: its versions (the lazy one for a
lazy set), compaction pointers, delta metadata (lazy set), log numbers and last
sequence; the next file number is one past the live one, and the MANIFEST
number is the live next file number. -/
structure Restores (lazy : Bool) (live r : VersionSet) : Prop where
  current : r.current = live.current
  currentLazy : lazy = true → r.currentLazy = live.currentLazy
  deltaMeta : lazy = true → r.deltaMeta = live.deltaMeta
  compactPointer : r.compactPointer = live.compactPointer
  logNumber : r.logNumber = live.logNumber
  prevLogNumber : r.prevLogNumber = live.prevLogNumber
  lastSequence : r.lastSequence = live.lastSequence
  nextFileNumber : r.nextFileNumber = live.nextFileNumber + 1
  manifestFileNumber : r.manifestFileNumber = live.nextFileNumber

namespace Replays

open Builder VersionSet

variable {lazy : Bool} {rt : Runtime} {live : VersionSet} {st : RecoverState}
  {seen seenLazy : List (Nat × UInt64)}

theorem finishRecover (replay : Replays lazy rt live st seen seenLazy) :
    ∃ r, VersionSet.finishRecover rt st = (.ok, r) ∧ Restores lazy live r := by
  have marked : ∀ (vset : VersionSet) (number : UInt64),
      (vset.markFileNumberUsed number).compactPointer = vset.compactPointer ∧
        (vset.markFileNumberUsed number).deltaMeta = vset.deltaMeta ∧
        (vset.markFileNumberUsed number).currentLazy = vset.currentLazy := by
    intro vset number
    unfold markFileNumberUsed
    split <;> simp
  have current : finalize rt st.builder.saveTo = live.current := by
    rw [replay.current, saveTo, replay.base,
      replay.levels.saveLevels_new replay.currentLength]
  unfold VersionSet.finishRecover
  simp only [replay.ok, replay.nextFile, replay.logNumber, replay.lastSequence,
    replay.prevLogNumber, Option.getD_some, Status.isOk, if_true]
  refine ⟨_, rfl, ⟨current, ?currentLazy, ?deltaMeta, ?compactPointer, rfl, rfl, rfl, rfl, rfl⟩⟩
  case currentLazy =>
    intro lazyOn
    -- a lazy builder has its lazy levels, so the lazy version is rebuilt
    have levelsThere : st.builder.lazyLevels.isEmpty = false := by
      have := (replay.lazyLevels lazyOn).length
      rw [List.isEmpty_eq_false_iff_exists_mem]
      exact List.exists_mem_of_length_pos (by rw [this]; decide)
    simp only [levelsThere, Bool.false_eq_true, if_false]
    rw [replay.currentLazy lazyOn, saveToLazy, replay.lazyBase,
      (replay.lazyLevels lazyOn).saveLevels_new (replay.currentLazyLength lazyOn)]
  case deltaMeta =>
    intro lazyOn
    rw [(marked _ _).2.1, (marked _ _).2.1, replay.deltaMeta lazyOn]
  case compactPointer => rw [(marked _ _).1, (marked _ _).1, replay.compactPointer]

end Replays

/-! ## Whole runs -/

@[simp] theorem addedNumbers_append (adds more : List (Nat × FileMetaData)) :
    addedNumbers (adds ++ more) = addedNumbers adds ++ addedNumbers more :=
  List.map_append

theorem unseen_of_nodup {seen : List (Nat × UInt64)} {adds : List (Nat × FileMetaData)}
    (distinct : (seen ++ addedNumbers adds).Nodup) :
    (addedNumbers adds).Nodup ∧ ∀ p ∈ adds, (p.1, p.2.number) ∉ seen := by
  obtain ⟨_, added, apart⟩ := List.nodup_append.mp distinct
  exact ⟨added, fun p member before => apart _ before _ (List.mem_map_of_mem member) rfl⟩

namespace VersionSet

theorem logAndApplyAll_cons_allOk (lazy : Bool) (rt : Runtime) (vset : VersionSet)
    (store : ManifestStore) (edit : VersionEdit) (edits : List VersionEdit) :
    logAndApplyAll lazy rt .allOk vset store (edit :: edits) =
      logAndApplyAll lazy rt .allOk (logAndApply lazy rt .allOk vset store edit).2.1
        (logAndApply lazy rt .allOk vset store edit).2.2 edits := by
  have ok := logAndApply_allOk_status lazy rt vset store edit
  simp only [logAndApplyAll]
  rw [ok]
  rfl

theorem logAndApply_allOk_userComparatorName (lazy : Bool) (rt : Runtime) (vset : VersionSet)
    (store : ManifestStore) (edit : VersionEdit) :
    (logAndApply lazy rt .allOk vset store edit).2.1.userComparatorName =
      vset.userComparatorName := by
  rw [logAndApply_allOk_vset, Builder.apply_vset]

theorem logAndApply_allOk_descriptorLog (lazy : Bool) (rt : Runtime) (vset : VersionSet)
    (store : ManifestStore) (edit : VersionEdit) :
    (logAndApply lazy rt .allOk vset store edit).2.1.descriptorLog =
      some (vset.descriptorLog.getD vset.manifestFileNumber) := by
  rw [logAndApply_allOk_vset]

theorem recoverRecords_snoc (lazy : Bool) (rt : Runtime) {start st st' : RecoverState}
    {records : List Bytes} (reads : recoverRecords lazy rt start records = some st)
    (ok : st.status = .ok) {record : Bytes} (read : recoverRecord lazy rt st record = some st') :
    recoverRecords lazy rt start (records ++ [record]) = some st' := by
  rw [recoverRecords_append, reads]
  simp [recoverRecords, ok, Status.isOk, read]

end VersionSet

/-- A run of successful calls so far: the live set writes MANIFEST `num`,
which `CURRENT` names, and `Recover`, reading it from `start`, reaches a state
that replays the live set. -/
structure Logged (lazy : Bool) (rt : Runtime) (start : RecoverState) (live : VersionSet)
    (store : ManifestStore) (num : UInt64) (st : RecoverState)
    (seen seenLazy : List (Nat × UInt64)) : Prop where
  replays : Replays lazy rt live st seen seenLazy
  descriptor : live.descriptorLog = some num
  current : store.current = some num
  read : ∃ records, store.records num = some records ∧
    VersionSet.recoverRecords lazy rt start records = some st

namespace ReplayLevels

open Builder VersionSet

variable {lazy : Bool} {rt : Runtime}

/-- The snapshot the first call writes, read into a fresh `VersionSet`,
rebuilds the levels of the set the call found. -/
theorem snapshot {vset : VersionSet} (opened : Reopened lazy rt vset) (snap : VersionSet)
    (sameCurrent : snap.current = vset.current) (sameLazy : snap.currentLazy = vset.currentLazy)
    (distinct : (addedNumbers (snapshotFiles vset.current (List.range kNumLevels))).Nodup)
    (distinctLazy : lazy = true →
      (addedNumbers (snapshotFiles vset.currentLazy (List.range kNumLazyLevels))).Nodup) :
    ReplayLevels lazy vset
      ((RecoverState.start lazy (VersionSet.new vset.userComparatorName)).applyEdit lazy rt
        (snapshotEdit lazy snap))
      (addedNumbers (snapshotFiles vset.current (List.range kNumLevels)))
      (addedNumbers (snapshotFiles vset.currentLazy (List.range kNumLazyLevels))) := by
  refine ⟨rfl, ?levels, ?lazyLevels, rfl, rfl, applyEdit_userComparatorName _ _ _ _⟩
  case levels =>
    rw [applyEdit_builder, apply_levels, snapshotEdit_newFiles, snapshotEdit_deletedFiles,
      sameCurrent]
    exact LevelsReplay.snapshot kNumLevels vset.current (primaryAllowedSeeks rt) (fun _ => rfl)
      opened.sorted opened.seeks distinct
  case lazyLevels =>
    intro lazyOn
    subst lazyOn
    rw [applyEdit_builder, apply_lazyLevels, snapshotEdit_newFilesLazy,
      snapshotEdit_deletedFilesLazy, sameLazy]
    exact LevelsReplay.snapshot kNumLazyLevels vset.currentLazy (fun _ => lazyAllowedSeeks)
      (fun _ => rfl) (opened.lazySorted rfl) (opened.lazySeeks rfl) (distinctLazy rfl)

end ReplayLevels

namespace Logged

open Builder VersionSet

variable {lazy : Bool} {rt : Runtime} {start : RecoverState} {live : VersionSet}
  {store : ManifestStore} {num : UInt64} {st : RecoverState} {seen seenLazy : List (Nat × UInt64)}

/-- A call on an open MANIFEST appends the edit's record, which `Recover`
reads back: the run stays logged, with the edit's files seen. -/
theorem logAndApply (logged : Logged lazy rt start live store num st seen seenLazy)
    (edit : VersionEdit) (readable : edit.Readable)
    (sameComparator : ∀ name ∈ edit.comparator, name = live.userComparatorName)
    (distinct : (seen ++ addedNumbers edit.newFiles).Nodup)
    (distinctLazy : lazy = true → (seenLazy ++ addedNumbers edit.newFilesLazy).Nodup) :
    Logged lazy rt start (logAndApply lazy rt .allOk live store edit).2.1
      (logAndApply lazy rt .allOk live store edit).2.2 num
      (st.applyEdit lazy rt (live.prepareEdit edit))
      (seen ++ addedNumbers edit.newFiles) (seenLazy ++ addedNumbers edit.newFilesLazy) := by
  obtain ⟨replay, descriptor, current, records, stored, reads⟩ := logged
  obtain ⟨added, unseen⟩ := unseen_of_nodup distinct
  have read : recoverRecord lazy rt st ((live.prepareEdit edit).encodeWith lazy []) =
      some (st.applyEdit lazy rt (live.prepareEdit edit)) := by
    refine recoverRecord_encodeWith lazy rt st _ (readable_prepareEdit live readable) ?_
    rw [prepareEdit_comparator, replay.name]
    exact sameComparator
  refine ⟨?replays, ?descriptor, ?current, ?read⟩
  case replays =>
    exact replay.toReplayLevels.logAndApply store edit (by rw [replay.compactPointer]) added unseen
      (fun lazyOn => (unseen_of_nodup (distinctLazy lazyOn)).1)
      (fun lazyOn => (unseen_of_nodup (distinctLazy lazyOn)).2)
  case descriptor => rw [logAndApply_allOk_descriptorLog, descriptor]; rfl
  case current => rw [logAndApply_allOk_store_open lazy rt live store edit descriptor]; exact current
  case read =>
    refine ⟨records ++ [(live.prepareEdit edit).encodeWith lazy []], ?_, ?_⟩
    · rw [logAndApply_allOk_store_open lazy rt live store edit descriptor,
        ManifestStore.records_append, stored]
      rfl
    · exact recoverRecords_snoc lazy rt reads replay.ok read

/-- The first call after `Recover` starts MANIFEST `manifestFileNumber` with
the snapshot and the edit's record; `Recover`, reading both into a fresh
`VersionSet`, replays the set the call leaves. -/
theorem first {vset : VersionSet} (opened : Reopened lazy rt vset) (store : ManifestStore)
    (edit : VersionEdit) (readable : edit.Readable)
    (sameComparator : ∀ name ∈ edit.comparator, name = vset.userComparatorName)
    (distinct : (addedNumbers (snapshotFiles vset.current (List.range kNumLevels) ++
      edit.newFiles)).Nodup)
    (distinctLazy : lazy = true → (addedNumbers (snapshotFiles vset.currentLazy
      (List.range kNumLazyLevels) ++ edit.newFilesLazy)).Nodup) :
    ∃ st, Logged lazy rt (RecoverState.start lazy (VersionSet.new vset.userComparatorName))
      (VersionSet.logAndApply lazy rt .allOk vset store edit).2.1
      (VersionSet.logAndApply lazy rt .allOk vset store edit).2.2 vset.manifestFileNumber st
      (addedNumbers (snapshotFiles vset.current (List.range kNumLevels) ++ edit.newFiles))
      (addedNumbers (snapshotFiles vset.currentLazy (List.range kNumLazyLevels) ++
        edit.newFilesLazy)) := by
  -- the set the snapshot is taken of: `Apply` has already written the edit's
  -- compaction pointers and delta metadata into it
  let snap : VersionSet := { vset with
    compactPointer := applyCompactPointers vset.compactPointer edit.compactPointers
    deltaMeta := if lazy then edit.deltaMeta else vset.deltaMeta
    descriptorLog := some vset.manifestFileNumber }
  let start := RecoverState.start lazy (VersionSet.new vset.userComparatorName)
  let afterSnapshot := start.applyEdit lazy rt (snapshotEdit lazy snap)
  rw [addedNumbers_append] at distinct ⊢
  rw [addedNumbers_append]
  obtain ⟨added, unseen⟩ := unseen_of_nodup distinct
  have snapReadable : (snapshotEdit lazy snap).Readable := by
    refine snapshotEdit_readable lazy snap opened.nameShort ?_ opened.keysShort opened.lazyKeysShort
    intro p member
    rcases mem_applyCompactPointers member with old | ⟨q, inEdit, rfl⟩
    · exact opened.pointersShort p old
    · exact readable.compactPointerKeys q inEdit
  have readSnapshot : recoverRecord lazy rt start (writeSnapshot lazy snap) = some afterSnapshot :=
    recoverRecord_encodeWith lazy rt start _ snapReadable (by simp [snap, start, RecoverState.start,
      VersionSet.new])
  have readEdit : recoverRecord lazy rt afterSnapshot ((vset.prepareEdit edit).encodeWith lazy []) =
      some (afterSnapshot.applyEdit lazy rt (vset.prepareEdit edit)) := by
    refine recoverRecord_encodeWith lazy rt _ _ (readable_prepareEdit vset readable) ?_
    rw [prepareEdit_comparator, applyEdit_userComparatorName]
    exact sameComparator
  -- the snapshot's pointers rebuild the slots the edit's pointers then overwrite again
  have pointers : applyCompactPointers afterSnapshot.vset.compactPointer edit.compactPointers =
      applyCompactPointers vset.compactPointer edit.compactPointers := by
    have restored : afterSnapshot.vset.compactPointer = snap.compactPointer := by
      rw [applyEdit_vset, Builder.apply_vset, snapshotEdit_compactPointers]
      exact applyCompactPointers_snapshot snap.compactPointer (by simp [snap, opened.pointerSlots])
    rw [restored]
    exact applyCompactPointers_idem _ _
  have replay : ReplayLevels lazy vset afterSnapshot _ _ :=
    ReplayLevels.snapshot opened snap rfl rfl distinct.of_append_left fun lazyOn => by
      have lazyDistinct := distinctLazy lazyOn
      rw [addedNumbers_append] at lazyDistinct
      exact lazyDistinct.of_append_left
  refine ⟨_, replay.logAndApply store edit pointers added unseen ?_ ?_, ?descriptor, ?current, ?read⟩
  · intro lazyOn
    have lazyDistinct := distinctLazy lazyOn
    rw [addedNumbers_append] at lazyDistinct
    exact (unseen_of_nodup lazyDistinct).1
  · intro lazyOn
    have lazyDistinct := distinctLazy lazyOn
    rw [addedNumbers_append] at lazyDistinct
    exact (unseen_of_nodup lazyDistinct).2
  case descriptor => rw [logAndApply_allOk_descriptorLog, opened.noManifest]; rfl
  case current => rw [logAndApply_allOk_store_fresh lazy rt vset store edit opened.noManifest]; rfl
  case read =>
    refine ⟨[writeSnapshot lazy snap, (vset.prepareEdit edit).encodeWith lazy []], ?_, ?_⟩
    · rw [logAndApply_allOk_store_fresh lazy rt vset store edit opened.noManifest]
      simp [snap]
    · have noRecords : recoverRecords lazy rt start [] = some start := rfl
      exact recoverRecords_snoc lazy rt (recoverRecords_snoc lazy rt noRecords rfl readSnapshot) rfl
        readEdit

/-- Every further call of a run keeps it logged, when its edits can be read
back, name the live comparator if any, and add no level and number twice or
one already seen. -/
theorem logAndApplyAll : ∀ (edits : List VersionEdit) {live : VersionSet} {store : ManifestStore}
    {st : RecoverState} {seen seenLazy : List (Nat × UInt64)},
    Logged lazy rt start live store num st seen seenLazy →
    (∀ e ∈ edits, e.Readable) →
    (∀ e ∈ edits, ∀ name ∈ e.comparator, name = live.userComparatorName) →
    (seen ++ addedNumbers (edits.flatMap VersionEdit.newFiles)).Nodup →
    (lazy = true → (seenLazy ++ addedNumbers (edits.flatMap VersionEdit.newFilesLazy)).Nodup) →
    (logAndApplyAll lazy rt .allOk live store edits).1 = .ok ∧
      ∃ st' seen' seenLazy', Logged lazy rt start (logAndApplyAll lazy rt .allOk live store edits).2.1
        (logAndApplyAll lazy rt .allOk live store edits).2.2 num st' seen' seenLazy'
  | [], _, _, st, seen, seenLazy, logged, _, _, _, _ => ⟨rfl, st, seen, seenLazy, logged⟩
  | edit :: edits, live, store, _, seen, seenLazy, logged, readable, sameComparator, distinct,
      distinctLazy => by
      simp only [List.flatMap_cons, addedNumbers_append, ← List.append_assoc] at distinct distinctLazy
      have next := logged.logAndApply edit (readable edit (by simp))
        (sameComparator edit (by simp)) distinct.of_append_left
        (fun lazyOn => (distinctLazy lazyOn).of_append_left)
      rw [logAndApplyAll_cons_allOk]
      refine logAndApplyAll edits next (fun e member => readable e (by simp [member])) ?_ distinct
        distinctLazy
      rw [logAndApply_allOk_userComparatorName]
      exact fun e member => sameComparator e (by simp [member])

/-- `Recover` on a logged run reads `CURRENT`, the MANIFEST it names and
every record. -/
theorem recover {vset : VersionSet}
    (logged : Logged lazy rt (RecoverState.start lazy vset) live store num st seen seenLazy) :
    VersionSet.recover lazy rt vset store = some (VersionSet.finishRecover rt st) := by
  obtain ⟨_, _, current, records, stored, reads⟩ := logged
  unfold VersionSet.recover
  rw [current]
  simp only
  rw [stored]
  simp only
  rw [reads]
  rfl

end Logged

namespace VersionSet

theorem addedNumbers_flatMap_cons (adds : List (Nat × FileMetaData))
    (field : VersionEdit → List (Nat × FileMetaData)) (edit : VersionEdit) (edits : List VersionEdit) :
    addedNumbers (adds ++ (edit :: edits).flatMap field) =
      addedNumbers (adds ++ field edit) ++ addedNumbers (edits.flatMap field) := by
  rw [List.flatMap_cons, ← List.append_assoc, addedNumbers_append]

/-- `Recover` after successful `LogAndApply` calls on a freshly opened set
gives back the set the last call left: its versions, compaction pointers,
delta metadata (for a lazy set) and counters.  Each edit must be readable and
name no other comparator, and no level and file number may be added twice:
neither one the opened set already holds nor one an earlier edit added. -/
theorem recover_logAndApplyAll (lazy : Bool) (rt : Runtime) (vset : VersionSet)
    (store : ManifestStore) (edit : VersionEdit) (edits : List VersionEdit)
    (opened : Reopened lazy rt vset) (readable : ∀ e ∈ edit :: edits, e.Readable)
    (sameComparator : ∀ e ∈ edit :: edits, ∀ name ∈ e.comparator, name = vset.userComparatorName)
    (files : (addedNumbers (snapshotFiles vset.current (List.range kNumLevels) ++
      (edit :: edits).flatMap VersionEdit.newFiles)).Nodup)
    (lazyFiles : lazy = true → (addedNumbers (snapshotFiles vset.currentLazy
      (List.range kNumLazyLevels) ++ (edit :: edits).flatMap VersionEdit.newFilesLazy)).Nodup) :
    (logAndApplyAll lazy rt .allOk vset store (edit :: edits)).1 = .ok ∧
      ∃ r, recover lazy rt (VersionSet.new vset.userComparatorName)
          (logAndApplyAll lazy rt .allOk vset store (edit :: edits)).2.2 = some (.ok, r) ∧
        Restores lazy (logAndApplyAll lazy rt .allOk vset store (edit :: edits)).2.1 r := by
  rw [addedNumbers_flatMap_cons] at files
  simp only [addedNumbers_flatMap_cons] at lazyFiles
  obtain ⟨st, logged⟩ := Logged.first opened store edit (readable edit (by simp))
    (sameComparator edit (by simp)) files.of_append_left fun lazyOn => (lazyFiles lazyOn).of_append_left
  have sameName := logAndApply_allOk_userComparatorName lazy rt vset store edit
  obtain ⟨ok, st', _, _, logged'⟩ := Logged.logAndApplyAll edits logged
    (fun e member => readable e (by simp [member]))
    (fun e member => sameName ▸ sameComparator e (by simp [member])) files lazyFiles
  rw [logAndApplyAll_cons_allOk]
  obtain ⟨r, finished, restores⟩ := logged'.replays.finishRecover
  exact ⟨ok, r, by rw [logged'.recover, finished], restores⟩

def flushEdit : VersionEdit :=
  ((VersionEdit.empty.addFile 0 7 4096 (InternalKey.make [97] 1 .kTypeValue)
    (InternalKey.make [122] 9 .kTypeValue)).addLazyFile 26 7 4096
    (InternalKey.make [97] 1 .kTypeValue) (InternalKey.make [122] 9 .kTypeValue)).setLogNumber 5

def moveDownEdit : VersionEdit :=
  ((VersionEdit.empty.deleteFile 0 7).addFile 1 7 4096 (InternalKey.make [97] 1 .kTypeValue)
    (InternalKey.make [122] 9 .kTypeValue)).setCompactPointer 0
    (InternalKey.make [122] 9 .kTypeValue)

theorem recover_logAndApplyAll_moveDown :
    (logAndApplyAll true Runtime.hlsm .allOk (VersionSet.new []) ManifestStore.empty
        [flushEdit, moveDownEdit]).1 = .ok ∧
      ∃ r, recover true Runtime.hlsm (VersionSet.new (VersionSet.new []).userComparatorName)
          (logAndApplyAll true Runtime.hlsm .allOk (VersionSet.new []) ManifestStore.empty
            [flushEdit, moveDownEdit]).2.2 = some (.ok, r) ∧
        Restores true (logAndApplyAll true Runtime.hlsm .allOk (VersionSet.new [])
          ManifestStore.empty [flushEdit, moveDownEdit]).2.1 r :=
  recover_logAndApplyAll true Runtime.hlsm (VersionSet.new []) ManifestStore.empty flushEdit
    [moveDownEdit] (Reopened.new true Runtime.hlsm (by decide))
    (by
      intro e member
      simp only [List.mem_cons, List.not_mem_nil, or_false] at member
      rcases member with rfl | rfl <;> constructor <;> decide)
    (by decide +kernel) (by decide +kernel) (fun _ => by decide +kernel)

def readdEdits : List VersionEdit :=
  [VersionEdit.empty.addFile 1 7 100 (InternalKey.make [97] 1 .kTypeValue)
      (InternalKey.make [98] 2 .kTypeValue),
    VersionEdit.empty.deleteFile 1 7,
    VersionEdit.empty.addFile 1 7 100 (InternalKey.make [99] 3 .kTypeValue)
      (InternalKey.make [100] 4 .kTypeValue)]

/-- The live set holds file 7 once on level 1; `Recover`'s builder still has
the first file 7 among its additions, since a deletion does not remove an
added file, and the second addition only takes 7 out of the deleted numbers:
the recovered level holds file 7 twice. -/
theorem recover_keepsReaddedFile :
    (logAndApplyAll true Runtime.hlsm .allOk (VersionSet.new []) ManifestStore.empty readdEdits).1 =
        .ok ∧
      ((logAndApplyAll true Runtime.hlsm .allOk (VersionSet.new []) ManifestStore.empty
          readdEdits).2.1.current.levelFiles 1).map FileMetaData.number = [7] ∧
      (recover true Runtime.hlsm (VersionSet.new [])
          (logAndApplyAll true Runtime.hlsm .allOk (VersionSet.new []) ManifestStore.empty
            readdEdits).2.2).map (fun r => (r.2.current.levelFiles 1).map FileMetaData.number) =
        some [7, 7] := by
  decide

end VersionSet

end HLsm
