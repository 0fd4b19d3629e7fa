import HLsm.VersionSet

/-!
# What a failed `LogAndApply` leaves behind

`LogAndApply` builds the new versions before it writes the MANIFEST and
installs them only when every write succeeded; on failure it deletes a
MANIFEST it had just created.  `Builder::Apply`, however, writes the edit's
compaction pointers and (for a lazy set) its delta metadata into the version
set while the new version is being built, before any write: a failed call
leaves those two fields as the edit set them.

Results:
* `logAndApply_failure`: after a failed call the version set is the one before
  it with the compaction pointers and delta metadata of the edit, and either a
  MANIFEST was already open or the new one is gone.
* `failedLogAndApply_writesDeltaMeta`: a lazy set whose MANIFEST write fails
  still takes the edit's delta metadata.
-/

set_option autoImplicit false

namespace HLsm

namespace VersionSet

/-! ## The pieces of `LogAndApply` -/

section Pieces

variable (lazy : Bool) (io : ManifestIO) (vset : VersionSet) (store : ManifestStore)

theorem openManifest_of_open {num : UInt64} (opened : vset.descriptorLog = some num) :
    openManifest lazy io vset store = (.ok, vset, store, false) := by
  simp [openManifest, opened]

theorem openManifest_of_fresh (fresh : vset.descriptorLog = none) :
    (openManifest lazy io vset store).2.2.2 = true ∧
      { (openManifest lazy io vset store).2.1 with descriptorLog := none } = vset ∧
      (openManifest lazy io vset store).2.1.descriptorLog.getD vset.manifestFileNumber =
        vset.manifestFileNumber ∧
      (openManifest lazy io vset store).2.2.1.delete vset.manifestFileNumber =
        store.delete vset.manifestFileNumber := by
  have restore : { vset with descriptorLog := none } = vset := by
    rw [← fresh]
  unfold openManifest
  rw [fresh]
  simp only
  split
  · split <;> simp [restore]
  · simp [restore, fresh]

theorem writeRecord_delete (num : UInt64) (edit : VersionEdit) :
    (writeRecord lazy io num edit store).2.delete num = store.delete num := by
  unfold writeRecord
  split
  · simp
  · rfl

variable (edit : VersionEdit)

theorem writeManifest_of_open {num : UInt64} (opened : vset.descriptorLog = some num) :
    (writeManifest lazy io vset store edit).2.1 = vset ∧
      (writeManifest lazy io vset store edit).2.2.2 = false := by
  simp [writeManifest, openManifest_of_open lazy io vset store opened]

theorem writeManifest_of_fresh (fresh : vset.descriptorLog = none) :
    (writeManifest lazy io vset store edit).2.2.2 = true ∧
      { (writeManifest lazy io vset store edit).2.1 with descriptorLog := none } = vset ∧
      ((writeManifest lazy io vset store edit).1 ≠ .ok →
        (writeManifest lazy io vset store edit).2.2.1.delete vset.manifestFileNumber =
          store.delete vset.manifestFileNumber) := by
  obtain ⟨started, restore, named, undone⟩ := openManifest_of_fresh lazy io vset store fresh
  rcases opened : openManifest lazy io vset store with ⟨s, vset', store', newManifest⟩
  rw [opened] at started restore named undone
  simp only at started restore named undone
  subst started
  refine ⟨by simp [writeManifest, opened], by simp [writeManifest, opened, restore], ?_⟩
  intro failed
  have sameNum : vset'.manifestFileNumber = vset.manifestFileNumber := by rw [← restore]
  simp only [writeManifest, opened, sameNum, named] at failed ⊢
  -- whichever write failed, `CURRENT` was not written
  split_ifs at failed ⊢ <;> simp_all [writeRecord_delete]

end Pieces

/-! ## The failure paths -/

/-- A failed `LogAndApply` installs nothing: the version set is the one before
the call with only what `Builder::Apply` wrote into it (the compaction
pointers, and for a lazy set the delta metadata), and either a MANIFEST was
already open or the MANIFEST the call created is deleted again. -/
theorem logAndApply_failure (lazy : Bool) (rt : Runtime) (io : ManifestIO) (vset : VersionSet)
    (store : ManifestStore) (edit : VersionEdit)
    (failed : (logAndApply lazy rt io vset store edit).1 ≠ .ok) :
    (logAndApply lazy rt io vset store edit).2.1 =
        { vset with
          compactPointer := Builder.applyCompactPointers vset.compactPointer edit.compactPointers
          deltaMeta := if lazy then edit.deltaMeta else vset.deltaMeta } ∧
      (vset.descriptorLog.isSome ∨
        (logAndApply lazy rt io vset store edit).2.2 = store.delete vset.manifestFileNumber) := by
  -- what `Builder::Apply` leaves in the set
  have applied := Builder.apply_vset lazy rt vset (Builder.new lazy vset.current vset.currentLazy)
    (vset.prepareEdit edit)
  simp only [prepareEdit_compactPointers, prepareEdit_deltaMeta] at applied
  unfold logAndApply at failed ⊢
  rcases hp : Builder.apply lazy rt vset (Builder.new lazy vset.current vset.currentLazy)
    (vset.prepareEdit edit) with ⟨vset1, builder⟩
  rw [hp] at applied
  simp only at applied
  simp only [hp] at failed ⊢
  generalize hw : writeManifest lazy io vset1 store (vset.prepareEdit edit) = written at failed ⊢
  obtain ⟨s, vset2, store2, newManifest⟩ := written
  simp only at failed ⊢
  have notOk : s.isOk = false := by
    cases s <;> simp_all [Status.isOk]
  simp only [notOk] at failed ⊢
  have sameLog : vset1.descriptorLog = vset.descriptorLog := by rw [applied]
  have sameNum : vset1.manifestFileNumber = vset.manifestFileNumber := by rw [applied]
  cases hd : vset.descriptorLog with
  | some num =>
      -- a MANIFEST was open: the descriptor stays and nothing is installed
      obtain ⟨same, old⟩ := writeManifest_of_open lazy io vset1 store (vset.prepareEdit edit)
        (show vset1.descriptorLog = some num by rw [sameLog, hd])
      rw [hw] at same old
      simp only at same old
      subst same old
      simp [applied, hd]
  | none =>
      -- the call started a MANIFEST: it is closed and deleted again
      obtain ⟨started, restore, undone⟩ := writeManifest_of_fresh lazy io vset1 store
        (vset.prepareEdit edit) (by rw [sameLog, hd])
      rw [hw] at started restore undone
      simp only at started restore undone
      subst started
      have deleted := undone (by cases s <;> simp_all [Status.isOk])
      have keptNum : vset2.manifestFileNumber = vset1.manifestFileNumber := by rw [← restore]
      simp only [Bool.false_eq_true, if_false, if_true]
      refine ⟨restore.trans (by rw [applied, hd]), .inr ?_⟩
      rw [keptNum, deleted, sameNum]

/-- `AddRecord` fails; every other call succeeds. -/
def failingAddRecord : ManifestIO := { ManifestIO.allOk with addRecord := .ioError "MANIFEST" }

def openLazySet : VersionSet := { VersionSet.new [] with descriptorLog := some 2 }

/-- The edit `AdvanceHLSMActiveDeltaLevel (2)` logs: logical level 1 moves on
to its next delta sub-level. -/
def advanceEdit : VersionEdit := VersionEdit.empty.advanceActiveDeltaLevel 1

theorem logAndApply_failure_addRecord :
    (logAndApply true Runtime.hlsm failingAddRecord openLazySet ManifestStore.empty advanceEdit).1 ≠
        .ok ∧
      (logAndApply true Runtime.hlsm failingAddRecord openLazySet ManifestStore.empty
          advanceEdit).2.1 =
        { openLazySet with
          compactPointer := Builder.applyCompactPointers openLazySet.compactPointer
            advanceEdit.compactPointers
          deltaMeta := if true then advanceEdit.deltaMeta else openLazySet.deltaMeta } ∧
      (openLazySet.descriptorLog.isSome ∨
        (logAndApply true Runtime.hlsm failingAddRecord openLazySet ManifestStore.empty
          advanceEdit).2.2 = ManifestStore.empty.delete openLazySet.manifestFileNumber) := by
  have failed : (logAndApply true Runtime.hlsm failingAddRecord openLazySet ManifestStore.empty
      advanceEdit).1 ≠ .ok := by decide
  exact ⟨failed, logAndApply_failure true Runtime.hlsm _ _ _ _ failed⟩

/-- The same failed call moves the active delta sub-level of logical level 1
from 1 to 2 in the set, although the edit was never written. -/
theorem failedLogAndApply_writesDeltaMeta :
    (logAndApply true Runtime.hlsm failingAddRecord openLazySet ManifestStore.empty advanceEdit).1 ≠
        .ok ∧
      (metaAt (logAndApply true Runtime.hlsm failingAddRecord openLazySet ManifestStore.empty
          advanceEdit).2.1.deltaMeta 1).active = 2 ∧
      (metaAt openLazySet.deltaMeta 1).active = 1 := by
  decide

end VersionSet

end HLsm
