import HLsm.DB
import HLsm.Layout
import HLsm.Replay

/-! # Runs of the database

`DBImpl::Get` charges a seek to the first table file it read whenever it had
to read a second one, and `Version::UpdateStats` on `current_` nominates that
file for a compaction once its counter runs out.  In hLSM mode the read is
served by `current_lazy_`, so the object charged and the level recorded both
come from the lazy version.

* `get_charges`, `run_gets`: while the charged file has seeks to spare, a read
  takes one off and changes nothing else; a run of reads is an induction over
  that step.
* `get_nominates`, `run_gets_nominates`: the read that takes the last seek
  nominates the file at the level the stats name, and schedules a compaction.
* `backgroundCall_idle`: a scheduled background call whose pick finds nothing
  leaves the state as it found it, scheduled again.

The runs after these lemmas start from a newly opened database; each one is
evaluated once, and the reads that wear a file's counter down are the lemmas
above.
-/

set_option autoImplicit false

namespace HLsm

open HLsm.Coding HLsm.Format

namespace DB

variable (cfg : Config)

/-- The version `Get` reads once both memtables miss. -/
def readVersion (db : DB) : Version :=
  if readsLazy cfg then db.versions.currentLazy else db.versions.current

def replaceReadFile (db : DB) (level : Nat) (f : FileMetaData) : DB :=
  if readsLazy cfg then
    { db with versions := { db.versions with
        currentLazy := db.versions.currentLazy.replaceFile level f } }
  else { db with versions := { db.versions with current := db.versions.current.replaceFile level f } }

/-- `db` with `f` nominated for a seek compaction at `level`. -/
def nominate (db : DB) (level : Nat) (f : FileMetaData) : DB :=
  { db with versions := { db.versions with
      current := { db.versions.current with fileToCompact := some f, fileToCompactLevel := level } } }

section Replace

variable {cfg} {db : DB} {level : Nat} {f : FileMetaData}

@[simp] theorem replaceReadFile_mem : (replaceReadFile cfg db level f).mem = db.mem := by
  unfold replaceReadFile; split <;> rfl

@[simp] theorem replaceReadFile_imm : (replaceReadFile cfg db level f).imm = db.imm := by
  unfold replaceReadFile; split <;> rfl

@[simp] theorem replaceReadFile_storage : (replaceReadFile cfg db level f).storage = db.storage := by
  unfold replaceReadFile; split <;> rfl

@[simp] theorem replaceReadFile_lastSequence :
    (replaceReadFile cfg db level f).versions.lastSequence = db.versions.lastSequence := by
  unfold replaceReadFile; split <;> rfl

@[simp] theorem replaceReadFile_bgError : (replaceReadFile cfg db level f).bgError = db.bgError := by
  unfold replaceReadFile; split <;> rfl

@[simp] theorem replaceReadFile_manualCompaction :
    (replaceReadFile cfg db level f).manualCompaction = db.manualCompaction := by
  unfold replaceReadFile; split <;> rfl

@[simp] theorem replaceReadFile_bgCompactionScheduled :
    (replaceReadFile cfg db level f).bgCompactionScheduled = db.bgCompactionScheduled := by
  unfold replaceReadFile; split <;> rfl

@[simp] theorem replaceReadFile_fileToCompact :
    (replaceReadFile cfg db level f).versions.current.fileToCompact = db.versions.current.fileToCompact := by
  unfold replaceReadFile; split <;> rfl

theorem readVersion_replaceReadFile :
    readVersion cfg (replaceReadFile cfg db level f) = (readVersion cfg db).replaceFile level f := by
  unfold readVersion replaceReadFile
  split <;> simp [*]

theorem replaceReadFile_replaceReadFile {f' : FileMetaData} (same : f.number = f'.number) :
    replaceReadFile cfg (replaceReadFile cfg db level f) level f' = replaceReadFile cfg db level f' := by
  unfold replaceReadFile
  split <;> simp [*, Version.replaceFile_replaceFile]

theorem replaceReadFile_self (found : (readVersion cfg db).findSeekFile level f.number = some f) :
    replaceReadFile cfg db level f = db := by
  unfold readVersion at found
  unfold replaceReadFile
  split
  · rename_i lazy
    rw [if_pos lazy] at found
    rw [Version.replaceFile_self f found]
  · rename_i primary
    rw [if_neg primary] at found
    rw [Version.replaceFile_self f found]

end Replace

/-! ## One read -/

/-- A read of `key` that misses both memtables and charges the object `f` of
the read version, at `level`. -/
structure ChargesSeek (key : Bytes) (level : Nat) (f : FileMetaData) (db : DB) : Prop where
  memMiss : db.mem.get key db.versions.lastSequence = none
  immMiss : (db.imm.bind fun imm => imm.get key db.versions.lastSequence) = none
  charged : ((readVersion cfg db).get db.storage.read key db.versions.lastSequence).stats.seekFile =
    some (level, f.number)
  found : (readVersion cfg db).findSeekFile level f.number = some f

instance (key : Bytes) (level : Nat) (f : FileMetaData) (db : DB) :
    Decidable (ChargesSeek cfg key level f db) :=
  decidable_of_iff
    (db.mem.get key db.versions.lastSequence = none ∧
      (db.imm.bind fun imm => imm.get key db.versions.lastSequence) = none ∧
      ((readVersion cfg db).get db.storage.read key db.versions.lastSequence).stats.seekFile =
        some (level, f.number) ∧
      (readVersion cfg db).findSeekFile level f.number = some f)
    ⟨fun ⟨memMiss, immMiss, charged, found⟩ => ⟨memMiss, immMiss, charged, found⟩,
      fun reads => ⟨reads.memMiss, reads.immMiss, reads.charged, reads.found⟩⟩

variable {cfg}

theorem get_of_miss {key : Bytes} {level : Nat} {f : FileMetaData} {db : DB}
    (reads : ChargesSeek cfg key level f db) :
    (get cfg key db).2 = updateStats cfg ⟨some (level, f.number)⟩ db := by
  have charged := reads.charged
  unfold readVersion at charged
  simp only [get, reads.memMiss, reads.immMiss]
  rw [← charged]

/-- The charged object's counter has a seek to spare: only the counter changes. -/
theorem get_charges {key : Bytes} {level : Nat} {f : FileMetaData} {db : DB}
    (reads : ChargesSeek cfg key level f db) (left : 1 < f.allowedSeeks) :
    step cfg db (.get key) =
      some (replaceReadFile cfg db level { f with allowedSeeks := f.allowedSeeks - 1 }) := by
  have found := reads.found
  unfold readVersion at found
  simp only [step, get_of_miss reads, updateStats, found, Version.updateStats_of_lt _ _ left,
    Bool.false_eq_true, if_false]
  unfold replaceReadFile
  by_cases lazy : readsLazy cfg <;> simp [lazy]

/-- The read that uses up the counter nominates the object at the level the
stats name, and `MaybeScheduleCompaction` runs. -/
theorem get_nominates {key : Bytes} {level : Nat} {f : FileMetaData} {db : DB}
    (reads : ChargesSeek cfg key level f db) (last : f.allowedSeeks = 1)
    (noneYet : db.versions.current.fileToCompact = none) :
    step cfg db (.get key) =
      some (maybeScheduleCompaction
        (nominate (replaceReadFile cfg db level { f with allowedSeeks := 0 }) level
          { f with allowedSeeks := 0 })) := by
  have found := reads.found
  unfold readVersion at found
  simp only [step, get_of_miss reads, updateStats, found, Version.updateStats_of_last _ _ last noneYet,
    if_true]
  unfold replaceReadFile nominate
  by_cases lazy : readsLazy cfg
  · simp only [lazy, if_true]
  · -- `UpdateStats` sets the nomination before the object is written back
    simp only [lazy, Bool.false_eq_true, if_false]
    rfl

theorem ChargesSeek.replace {key : Bytes} {level : Nat} {f : FileMetaData} {db : DB}
    (reads : ChargesSeek cfg key level f db) (g : FileMetaData) (same : f.layout = g.layout) :
    ChargesSeek cfg key level g (replaceReadFile cfg db level g) := by
  have number : f.number = g.number := congrArg Prod.fst same
  have found : (readVersion cfg db).findSeekFile level g.number = some f := number ▸ reads.found
  have sameReads := get_eq_of_layout db.storage.read (Version.layout_replaceFile g found same)
  refine ⟨?_, ?_, ?_, ?_⟩
  · simpa using reads.memMiss
  · simpa using reads.immMiss
  · simpa [readVersion_replaceReadFile, sameReads, ← number] using reads.charged
  · rw [readVersion_replaceReadFile]
    exact Version.findSeekFile_replaceFile g found

/-! ## A run of reads -/

/-- `n` reads while the counter stays positive take `n` seeks off the charged
object.  The induction is on `n`, from the state the first read leaves. -/
theorem run_gets {key : Bytes} {level : Nat} :
    ∀ (n : Nat) {f : FileMetaData} {db : DB}, ChargesSeek cfg key level f db → (n : Int) < f.allowedSeeks →
      run cfg db (List.replicate n (.get key)) =
        some (replaceReadFile cfg db level { f with allowedSeeks := f.allowedSeeks - n })
  | 0, f, db, reads, _ => by
      simp only [List.replicate_zero, run, Nat.cast_zero, Int.sub_zero]
      rw [replaceReadFile_self reads.found]
  | n + 1, f, db, reads, spare => by
      let g : FileMetaData := { f with allowedSeeks := f.allowedSeeks - 1 }
      have first := get_charges reads (by omega)
      have later := run_gets n (reads.replace g rfl) (show (n : Int) < f.allowedSeeks - 1 by omega)
      have seeks : ({ g with allowedSeeks := g.allowedSeeks - n } : FileMetaData) =
          { f with allowedSeeks := f.allowedSeeks - ((n + 1 : Nat) : Int) } := by
        simp only [g, FileMetaData.mk.injEq, and_true]
        omega
      have sameFile : g.number = ({ g with allowedSeeks := g.allowedSeeks - n } : FileMetaData).number := rfl
      rw [List.replicate_succ, run, first, Option.bind_some, later,
        replaceReadFile_replaceReadFile sameFile, seeks]

/-- A run of exactly as many reads as the charged object has seeks left ends
with it nominated. -/
theorem run_gets_nominates {key : Bytes} {level : Nat} {f : FileMetaData} {db : DB}
    (reads : ChargesSeek cfg key level f db) (n : Nat) (left : f.allowedSeeks = n + 1)
    (noneYet : db.versions.current.fileToCompact = none) :
    run cfg db (List.replicate (n + 1) (.get key)) =
      some (maybeScheduleCompaction
        (nominate (replaceReadFile cfg db level { f with allowedSeeks := 0 }) level
          { f with allowedSeeks := 0 })) := by
  let g : FileMetaData := { f with allowedSeeks := f.allowedSeeks - n }
  have spare := run_gets n reads (by omega)
  have lastRead := get_nominates (reads.replace g rfl) (show g.allowedSeeks = 1 by simp only [g]; omega)
    (by rw [replaceReadFile_fileToCompact]; exact noneYet)
  have sameFile : g.number = ({ g with allowedSeeks := 0 } : FileMetaData).number := rfl
  rw [List.replicate_succ', run_append, spare, Option.bind_some, run, lastRead, Option.bind_some, run,
    replaceReadFile_replaceReadFile sameFile]

/-! ## A background call with nothing to do -/

theorem maybeScheduleCompaction_eq (db : DB) :
    maybeScheduleCompaction db =
      { db with bgCompactionScheduled := db.bgCompactionScheduled ||
          (db.bgError.isOk && (db.imm.isSome || db.manualCompaction.isSome || db.versions.needsCompaction)) } := by
  unfold maybeScheduleCompaction
  split_ifs with scheduled failed idle <;>
    cases db with
    | mk _ _ _ imm _ _ _ _ manual _ => cases imm <;> cases manual <;> simp_all

/-- A scheduled `BackgroundCall` that finds no immutable memtable, no manual
compaction and no compaction to pick, while `NeedsCompaction` still holds,
schedules itself again and changes nothing. -/
theorem backgroundCall_idle {db : DB} (ok : db.bgError = .ok) (noImm : db.imm = none)
    (noManual : db.manualCompaction = none) (scheduled : db.bgCompactionScheduled = true)
    (needs : db.versions.needsCompaction = true)
    (nothing : pickCompaction cfg db.versions = (db.versions, none)) :
    step cfg db .backgroundCall = some db := by
  simp only [step, scheduled, if_true, backgroundCall, ok, Status.isOk, if_true, backgroundCompaction,
    noImm, Option.isSome_none, Bool.false_eq_true, if_false, noManual, nothing, Option.map_some,
    maybeScheduleCompaction, needs, Option.isNone_none, Bool.not_true, Bool.and_false]
  cases db
  simp_all

theorem nominated_current (db : DB) (level : Nat) (g : FileMetaData) (lazyReads : readsLazy cfg = true) :
    (maybeScheduleCompaction (nominate (replaceReadFile cfg db level g) level g)).versions.current =
      { db.versions.current with fileToCompact := some g, fileToCompactLevel := level } := by
  simp [maybeScheduleCompaction_eq, nominate, replaceReadFile, lazyReads]

/-! ## Runs that nominate a lazy file -/

theorem exists_reachable_of_any {name : Bytes} {actions : List Action} {check : DB → Bool}
    (holds : ((«open» cfg name).bind fun db => run cfg db actions).any check) :
    ∃ db, Reachable cfg name db ∧ check db := by
  obtain ⟨db, ran, checked⟩ := (Option.any_eq_true _ _).mp holds
  exact ⟨db, reachable_of_run cfg ran, checked⟩

def entrySizes : Sizes := ⟨fun table => table.length, fun mem => mem.entries.length, 4⟩

/-- hLSM mode as `init` sets it up, in a build with `NDEBUG`. -/
def hlsmConfig : Config := ⟨Runtime.hlsm, entrySizes, true⟩

def flush : List Action := [.write none, .backgroundCall]

/-- Keys `a` and `z` written, flushed, and compacted by hand from level 0 down
to level 3.  The lazy version then holds the level-1 file in the active delta
sub-level of logical level 1 (lazy level 25) and the level-2 file in its NEW
sub-level (lazy level 26), both from `a` to `z`. -/
def movedDown : List Action :=
  .write (some [.put [97] [1], .put [122] [1]]) :: flush ++
    [.compactRange 0 none none, .backgroundCall, .compactRange 1 none none, .backgroundCall,
      .compactRange 2 none none, .backgroundCall]

def deltaFile : FileMetaData :=
  ⟨1000000, 6, 2, InternalKey.make [97] 1 .kTypeValue, InternalKey.make [122] 2 .kTypeValue⟩

theorem movedDown_charges :
    ((«open» hlsmConfig []).bind fun db => run hlsmConfig db movedDown).any (fun db =>
      decide (ChargesSeek hlsmConfig [99] 25 deltaFile db ∧ db.versions.current.fileToCompact = none ∧
        db.versions.current.files.length = kNumLevels)) := by
  decide +kernel

theorem lazySeekLevel_outsidePrimary :
    ∃ db, Reachable hlsmConfig [] db ∧ ∃ f, db.versions.current.fileToCompact = some f ∧
      f ∉ db.versions.current.levelFiles db.versions.current.fileToCompactLevel.toNat ∧
      kNumLevels ≤ db.versions.current.fileToCompactLevel.toNat + 1 := by
  obtain ⟨db, reach, checked⟩ := exists_reachable_of_any movedDown_charges
  obtain ⟨reads, noneYet, levels⟩ := of_decide_eq_true checked
  -- a million reads of `c` use up the lazy file's seeks
  have ran := run_gets_nominates reads 999999 rfl noneYet
  have current := nominated_current db 25 { deltaFile with allowedSeeks := 0 }
    (show readsLazy hlsmConfig = true from rfl)
  refine ⟨_, reach.run hlsmConfig ran, { deltaFile with allowedSeeks := 0 }, ?_, ?_, ?_⟩
  · rw [current]
  · -- `current_` has sixteen levels: nothing is at level 25
    have beyond : db.versions.current.files[25]? = none := by
      simp [levels, kNumLevels]
    simp [current, Version.levelFiles, beyond]
  · simp [current, kNumLevels]

/-- Keys `a` and `z` flushed to level 0, then `b` and `y`: two overlapping
tables on level 0 of both versions. -/
def twoFlushes : List Action :=
  .write (some [.put [97] [1], .put [122] [1]]) :: flush ++
    .write (some [.put [98] [2], .put [121] [2]]) :: flush

def newerFile : FileMetaData :=
  ⟨1000000, 7, 2, InternalKey.make [98] 3 .kTypeValue, InternalKey.make [121] 4 .kTypeValue⟩

theorem twoFlushes_charges :
    ((«open» hlsmConfig []).bind fun db => run hlsmConfig db twoFlushes).any (fun db =>
      decide (ChargesSeek hlsmConfig [99] 0 newerFile db ∧ db.versions.current.fileToCompact = none ∧
        db.versions.current.compactionScore < 1 ∧ db.bgError = .ok ∧ db.imm = none ∧
        db.manualCompaction = none)) := by
  decide +kernel

theorem evenSeekLevel_idles :
    ∃ db, Reachable hlsmConfig [] db ∧ db.imm = none ∧ db.manualCompaction = none ∧
      db.versions.needsCompaction = true ∧ (LazyVersionSet.pickCompaction db.versions).2 = none ∧
      step hlsmConfig db .backgroundCall = some db := by
  obtain ⟨db, reach, checked⟩ := exists_reachable_of_any twoFlushes_charges
  obtain ⟨reads, noneYet, belowOne, ok, noImm, noManual⟩ := of_decide_eq_true checked
  -- a million reads of `c` use up the newer file's seeks: it is nominated at level 0
  have ran := run_gets_nominates reads 999999 rfl noneYet
  have current := nominated_current db 0 { newerFile with allowedSeeks := 0 }
    (show readsLazy hlsmConfig = true from rfl)
  set final := maybeScheduleCompaction (nominate (replaceReadFile hlsmConfig db 0
    { newerFile with allowedSeeks := 0 }) 0 { newerFile with allowedSeeks := 0 })
  have needs : final.versions.needsCompaction = true := by
    simp [VersionSet.needsCompaction, current]
  have nothing : LazyVersionSet.pickCompaction final.versions = (final.versions, none) :=
    LazyVersionSet.pickCompaction_evenSeek_eq _ (by rw [current]; exact belowOne) (by rw [current])
      (by rw [current]; rfl)
  have finalImm : final.imm = none := by simp [final, maybeScheduleCompaction_eq, nominate, noImm]
  have finalManual : final.manualCompaction = none := by
    simp [final, maybeScheduleCompaction_eq, nominate, noManual]
  have finalOk : final.bgError = .ok := by simp [final, maybeScheduleCompaction_eq, nominate, ok]
  have scheduled : final.bgCompactionScheduled = true := by
    simp [final, maybeScheduleCompaction_eq, nominate, ok, VersionSet.needsCompaction]
  refine ⟨final, reach.run hlsmConfig ran, finalImm, finalManual, needs, by rw [nothing], ?_⟩
  apply backgroundCall_idle finalOk finalImm finalManual scheduled needs
  show (if lazy hlsmConfig then _ else _) = _
  rw [if_pos (show lazy hlsmConfig = true from rfl)]
  exact nothing

/-! ## Manual compactions in hLSM mode -/

/-- `a` and `k` written and compacted by hand into level 1, then a newer `k`
written and compacted by hand into level 1 as well.  The second compaction
merges the level-1 file away, but `UpdateLazyLevels` only drops the level-0
inputs from the lazy version: lazy level 1 keeps the old file beside the
output. -/
def compactedTwice : List Action :=
  .write (some [.put [97] [0], .put [107] [1]]) :: flush ++ [.compactRange 0 none none, .backgroundCall] ++
    .write (some [.put [107] [2]]) :: flush ++ [.compactRange 0 none none, .backgroundCall]

theorem compactedTwice_checks :
    ((«open» hlsmConfig []).bind fun db => run hlsmConfig db compactedTwice).any (fun db =>
      decide ((db.versions.currentLazy.get db.storage.read [107] db.versions.lastSequence).value = some [1] ∧
        (db.versions.current.get db.storage.read [107] db.versions.lastSequence).value = some [2] ∧
        ¬ (db.versions.currentLazy.levelFiles 1).Pairwise fun f g =>
          internalCompare f.largest.rep g.smallest.rep = .lt)) := by
  decide +kernel

theorem lazyRead_differsFromPrimary :
    ∃ db, Reachable hlsmConfig [] db ∧
      (db.versions.currentLazy.get db.storage.read [107] db.versions.lastSequence).value = some [1] ∧
      (db.versions.current.get db.storage.read [107] db.versions.lastSequence).value = some [2] := by
  obtain ⟨db, reach, checked⟩ := exists_reachable_of_any compactedTwice_checks
  obtain ⟨lazyRead, primaryRead, -⟩ := of_decide_eq_true checked
  exact ⟨db, reach, lazyRead, primaryRead⟩

theorem lazyLevelOne_overlaps :
    ∃ db, Reachable hlsmConfig [] db ∧
      ¬ (db.versions.currentLazy.levelFiles 1).Pairwise fun f g =>
        internalCompare f.largest.rep g.smallest.rep = .lt := by
  obtain ⟨db, reach, checked⟩ := exists_reachable_of_any compactedTwice_checks
  obtain ⟨-, -, overlaps⟩ := of_decide_eq_true checked
  exact ⟨db, reach, overlaps⟩

/-! ## Opening delta sub-levels

`AdvanceHLSMActiveDeltaLevel` logs an edit that names no file, so the versions
it installs have the levels the database held: a run of such calls is written
without the builder. -/

section Advances

variable (cfg)

theorem logAndApply_versions (db : DB) (edit : VersionEdit) :
    (logAndApply cfg db edit).2.versions =
      (VersionSet.logAndApply (lazy cfg) cfg.rt .allOk db.versions db.store edit).2.1 := rfl

/-- `AdvanceHLSMActiveDeltaLevel` with the versions it installs written from
the files the database holds. -/
def advanceKeepingFiles (level : Nat) (db : DB) : DB :=
  let next := advanceHLSMActiveDeltaLevel cfg level db
  { next with versions := { next.versions with
      current := finalize cfg.rt { Version.new kNumLevels with files := db.versions.current.files }
      currentLazy := { Version.new kNumLazyLevels with files := db.versions.currentLazy.files } } }

theorem namesNoFile_advance (db : DB) (level : Nat) :
    (((newVersionEdit cfg db.versions).advanceActiveDeltaLevel (getLogicalLevel level)).setPrevLogNumber
      0).setLogNumber db.logfileNumber |>.NamesNoFile := by
  unfold newVersionEdit
  split <;> exact ⟨rfl, rfl, rfl, rfl⟩

theorem advanceHLSMActiveDeltaLevel_eq (lazyMode : lazy cfg = true) (level : Nat) {db : DB}
    (currentLength : db.versions.current.files.length = kNumLevels)
    (lazyLength : db.versions.currentLazy.files.length = kNumLazyLevels) :
    advanceHLSMActiveDeltaLevel cfg level db = advanceKeepingFiles cfg level db := by
  have current : (advanceHLSMActiveDeltaLevel cfg level db).versions.current =
      finalize cfg.rt { Version.new kNumLevels with files := db.versions.current.files } := by
    simp only [advanceHLSMActiveDeltaLevel, lazyMode, Bool.not_true, Bool.false_eq_true, if_false,
      logAndApply_versions]
    exact VersionSet.logAndApply_current_of_namesNoFile _ _ _ _ _ (namesNoFile_advance cfg db level)
      currentLength
  have currentLazy : (advanceHLSMActiveDeltaLevel cfg level db).versions.currentLazy =
      { Version.new kNumLazyLevels with files := db.versions.currentLazy.files } := by
    simp only [advanceHLSMActiveDeltaLevel, lazyMode, Bool.not_true, Bool.false_eq_true, if_false,
      logAndApply_versions]
    rw [VersionSet.logAndApply_currentLazy_of_namesNoFile _ _ _ _ _ (namesNoFile_advance cfg db level)
      (fun _ => lazyLength)]
    rfl
  -- the state is its own update with the two versions it already has
  unfold advanceKeepingFiles
  rw [← current, ← currentLazy]

theorem run_advances (lazyMode : lazy cfg = true) (level n : Nat) {db : DB}
    (currentLength : db.versions.current.files.length = kNumLevels)
    (lazyLength : db.versions.currentLazy.files.length = kNumLazyLevels) :
    run cfg db (List.replicate n (.advanceDeltaLevel level)) =
      some ((advanceKeepingFiles cfg level)^[n] db) := by
  induction n generalizing db with
  | zero => rfl
  | succ n ih =>
    rw [List.replicate_succ, Function.iterate_succ_apply]
    have advanced := advanceHLSMActiveDeltaLevel_eq cfg lazyMode level currentLength lazyLength
    simp only [run, step, Option.bind_some, advanced]
    exact ih (by simp [advanceKeepingFiles, currentLength]) (by simp [advanceKeepingFiles, lazyLength])

theorem bind_run_advances (lazyMode : lazy cfg = true) (level n : Nat) (later : List Action)
    {opened : Option DB}
    (lengths : opened.all fun db => db.versions.current.files.length == kNumLevels &&
      db.versions.currentLazy.files.length == kNumLazyLevels) :
    (opened.bind fun db => run cfg db (List.replicate n (.advanceDeltaLevel level) ++ later)) =
      (opened.map (advanceKeepingFiles cfg level)^[n]).bind fun db => run cfg db later := by
  cases opened with
  | none => rfl
  | some db =>
    simp only [Option.all_some, Bool.and_eq_true, beq_iff_eq] at lengths
    simp [run_append, run_advances cfg lazyMode level n lengths.1 lengths.2]

end Advances

/-- `k` written, then moved by hand from level 0 through level 1 into level 2:
in the lazy version it ends in the active delta sub-level of logical level 1. -/
def throughLevelOne (value : UInt8) : List Action :=
  .write (some [.put [107] [value]]) :: flush ++
    [.compactRange 0 none none, .backgroundCall, .compactRange 1 none none, .backgroundCall]

/-- Twenty-three delta sub-levels opened for logical level 1 (as `db_gen`
does), `k` moved into the active one (24), one more opened, which wraps round
to sub-level 1, and a newer `k` moved into that. -/
def ringWrapped : List Action :=
  List.replicate 23 (.advanceDeltaLevel 2) ++ throughLevelOne 1 ++ [.advanceDeltaLevel 2] ++
    throughLevelOne 2

theorem ringWrapped_checks :
    ((«open» hlsmConfig []).bind fun db => run hlsmConfig db ringWrapped).any (fun db =>
      decide (metaAt db.versions.deltaMeta 1 = ⟨0, 0, 1⟩ ∧
        db.versions.currentLazy.levelFiles (activeDeltaLevelFor deltaLevelNum 1 24) ≠ [] ∧
        (db.versions.currentLazy.get db.storage.read [107] db.versions.lastSequence).value = some [1] ∧
        (db.versions.current.get db.storage.read [107] db.versions.lastSequence).value = some [2])) := by
  -- the twenty-three openings are taken without the builder, the rest is run
  rw [ringWrapped, List.append_assoc, List.append_assoc,
    bind_run_advances hlsmConfig rfl 2 23 _ (by decide +kernel)]
  decide +kernel

theorem deltaRing_wrapsOntoOlder :
    ∃ db, Reachable hlsmConfig [] db ∧ metaAt db.versions.deltaMeta 1 = ⟨0, 0, 1⟩ ∧
      db.versions.currentLazy.levelFiles (activeDeltaLevelFor deltaLevelNum 1 24) ≠ [] ∧
      (db.versions.currentLazy.get db.storage.read [107] db.versions.lastSequence).value = some [1] ∧
      (db.versions.current.get db.storage.read [107] db.versions.lastSequence).value = some [2] := by
  obtain ⟨db, reach, checked⟩ := exists_reachable_of_any ringWrapped_checks
  exact ⟨db, reach, of_decide_eq_true checked⟩

/-- `movedDown`, then two turns of the helper thread.  `UpdateLazyLevels`
queued a copy of the level-2 file to secondary storage when it added the file
to lazy level 26; `opq_helper` makes the copy inside an `assert`, so with
`NDEBUG` it never happens, and the file leaves `moving_tables_` all the same. -/
def copyDropped : List Action := movedDown ++ [.helper, .helper]

theorem copyDropped_checks :
    ((«open» hlsmConfig []).bind fun db => run hlsmConfig db copyDropped).any (fun db =>
      decide (∃ number ∈ db.versions.currentLazy.files.flatten.map FileMetaData.number,
        number ∉ db.storage.secondary ∧ number ∉ db.storage.mirror.movingTables)) := by
  decide +kernel

theorem lazyFile_withoutCopy :
    ∃ db, Reachable hlsmConfig [] db ∧
      ∃ number ∈ db.versions.currentLazy.files.flatten.map FileMetaData.number,
        number ∉ db.storage.secondary ∧ number ∉ db.storage.mirror.movingTables := by
  obtain ⟨db, reach, checked⟩ := exists_reachable_of_any copyDropped_checks
  exact ⟨db, reach, of_decide_eq_true checked⟩

end DB

end HLsm
