import HLsm.VersionEdit

/-!
# Reading an encoded edit back

`LazyVersionEdit::DecodeFrom` on a fresh edit reads back what `EncodeTo`
wrote, as long as every length it writes fits the `uint32_t` that
`PutLengthPrefixedSlice` writes it as, and every level is one the reader's
level check (`GetLevel`, `GetLazyLevel`) accepts.  A comparator name of `2 ^ 32`
bytes is written with length `0`, and the reader then parses its bytes as tags.

The proof goes record by record: each record's bytes are read back as that
record (`decodeLoop_record`), and applying the records of an edit, in
`EncodeTo`'s order, to a fresh edit rebuilds it (`applyRecords_records`).
-/

set_option autoImplicit false

namespace HLsm

open HLsm.Coding HLsm.Format Std

/-! ## The readers on what the writers wrote -/

theorem toNat_ofNat_level (level : Nat) (small : level < 2 ^ 32) :
    (UInt32.ofNat level).toNat = level := by
  simpa using small

theorem getLevel_encode (level : Nat) (rest : Bytes) (inRange : level < kNumLevels) :
    getLevel (encodeVarint32 (UInt32.ofNat level) ++ rest) = some (level, rest) := by
  have word := toNat_ofNat_level level (by simp [kNumLevels] at inRange; omega)
  simp [getLevel, getVarint32_encode, word, inRange]

theorem getLazyLevel_encode (level : Nat) (rest : Bytes) (inRange : level < kNumLazyLevels) :
    getLazyLevel (encodeVarint32 (UInt32.ofNat level) ++ rest) = some (level, rest) := by
  have word := toNat_ofNat_level level (by rw [kNumLazyLevels_eq] at inRange; omega)
  simp [getLazyLevel, getVarint32_encode, word, inRange]

theorem getInternalKey_encode (key : InternalKey) (rest : Bytes) (short : key.rep.length < 2 ^ 32) :
    getInternalKey (putLengthPrefixedSlice [] key.encode ++ rest) = some (key, rest) := by
  simp only [getInternalKey, InternalKey.encode, getLengthPrefixedSlice_put _ _ short]
  rfl

theorem getFileEntry_encode (readLevel : Bytes → Option (Nat × Bytes)) (level : Nat)
    (f : FileMetaData) (rest : Bytes)
    (readsLevel : ∀ rest, readLevel (encodeVarint32 (UInt32.ofNat level) ++ rest) = some (level, rest))
    (shortSmallest : f.smallest.rep.length < 2 ^ 32) (shortLargest : f.largest.rep.length < 2 ^ 32)
    (fresh : f.allowedSeeks = defaultAllowedSeeks) :
    getFileEntry readLevel (encodeFileEntry level f ++ rest) = some ((level, f), rest) := by
  have rebuilt : FileMetaData.make f.number f.fileSize f.smallest f.largest = f := by
    cases f
    simp only at fresh
    simp [FileMetaData.make, fresh]
  simp [getFileEntry, encodeFileEntry, List.append_assoc, readsLevel, getVarint64_encode,
    getInternalKey_encode _ _ shortSmallest, getInternalKey_encode _ _ shortLargest, rebuilt]

/-! ## One record -/

/-- What a record must satisfy for the lazy reader to read it back: every
length fits a `uint32_t`, every level passes the reader's check and lies within
the array it is applied to, and a file carries the `allowed_seeks` the reader
gives it. -/
def Record.Readable : Record → Prop
  | .comparator name => name.length < 2 ^ 32
  | .compactPointer level key => level < kNumLevels ∧ key.rep.length < 2 ^ 32
  | .deltaLevelOffset level _ => level < kLogicalLevels
  | .deletedFile level _ => level < kNumLevels
  | .deletedLazyFile level _ => level < kNumLazyLevels
  | .newFile level f => level < kNumLevels ∧ f.smallest.rep.length < 2 ^ 32 ∧
      f.largest.rep.length < 2 ^ 32 ∧ f.allowedSeeks = defaultAllowedSeeks
  | .newLazyFile level f => level < kNumLazyLevels ∧ f.smallest.rep.length < 2 ^ 32 ∧
      f.largest.rep.length < 2 ^ 32 ∧ f.allowedSeeks = defaultAllowedSeeks
  | _ => True

/-- Applying records in order: the fold `DecodeFrom`'s loop performs. -/
def VersionEdit.applyRecords (e : VersionEdit) : List Record → Except Nat VersionEdit
  | [] => .ok e
  | r :: rs =>
      match e.applyRecord r with
      | .ok e' => e'.applyRecords rs
      | .error level => .error level

theorem lazyLevel_of_logical {level : Nat} (inRange : level < kLogicalLevels) :
    level < kNumLazyLevels := by
  rw [kNumLazyLevels_eq]
  rw [kLogicalLevels_eq] at inRange
  omega

/-- The records only `LazyVersionEdit::DecodeFrom` reads; the basic reader
stops at their tags. -/
def Record.lazyOnly : Record → Bool
  | .deltaLevelOffset _ _ | .deletedLazyFile _ _ | .newLazyFile _ _ => true
  | _ => false

/-- The bytes of a readable record are read back as that record, and the loop
goes on with the record applied. -/
theorem decodeLoop_record (lazy : Bool) (r : Record) (readable : r.Readable)
    (known : r.lazyOnly = true → lazy = true) {e e' : VersionEdit}
    (applied : e.applyRecord r = .ok e') (fuel : Nat) (rest : Bytes) :
    decodeLoop lazy (fuel + 1) e (r.encode ++ rest) = decodeLoop lazy fuel e' rest := by
  cases r with
  | comparator name =>
      simp only [Record.Readable] at readable
      simp [Record.encode, decodeLoop, getVarint32_encode, parseRecord, applied, kComparator,
        getLengthPrefixedSlice_put _ _ readable]
  | logNumber num =>
      simp [Record.encode, decodeLoop, getVarint32_encode, parseRecord, applied, kLogNumber, kComparator,
        kDeltaLevelOffset, getVarint64_encode]
  | prevLogNumber num =>
      simp [Record.encode, decodeLoop, getVarint32_encode, parseRecord, applied, kPrevLogNumber,
        kComparator, kDeltaLevelOffset, kLogNumber, getVarint64_encode]
  | nextFileNumber num =>
      simp [Record.encode, decodeLoop, getVarint32_encode, parseRecord, applied, kNextFileNumber,
        kComparator, kDeltaLevelOffset, kLogNumber, kPrevLogNumber, getVarint64_encode]
  | lastSequence seq =>
      simp [Record.encode, decodeLoop, getVarint32_encode, parseRecord, applied, kLastSequence,
        kComparator, kDeltaLevelOffset, kLogNumber, kPrevLogNumber, kNextFileNumber,
        getVarint64_encode]
  | compactPointer level key =>
      obtain ⟨inRange, short⟩ := readable
      simp [Record.encode, decodeLoop, getVarint32_encode, parseRecord, applied, kCompactPointer,
        kComparator, kDeltaLevelOffset, kLogNumber, kPrevLogNumber, kNextFileNumber,
        kLastSequence, getLevel_encode _ _ inRange, getInternalKey_encode _ _ short]
  | deltaLevelOffset level dm =>
      obtain rfl := known rfl
      simp only [Record.Readable] at readable
      simp [Record.encode, decodeLoop, getVarint32_encode, parseRecord, applied, kDeltaLevelOffset,
        kComparator, getLazyLevel_encode _ _ (lazyLevel_of_logical readable)]
  | deletedFile level file =>
      simp only [Record.Readable] at readable
      simp [Record.encode, decodeLoop, getVarint32_encode, parseRecord, applied, kDeletedFile,
        kComparator, kDeltaLevelOffset, kLogNumber, kPrevLogNumber, kNextFileNumber,
        kLastSequence, kCompactPointer, getLevel_encode _ _ readable, getVarint64_encode]
  | deletedLazyFile level file =>
      obtain rfl := known rfl
      simp only [Record.Readable] at readable
      simp [Record.encode, decodeLoop, getVarint32_encode, parseRecord, applied, kDeletedLazyFile,
        kComparator, kDeltaLevelOffset, kLogNumber, kPrevLogNumber, kNextFileNumber,
        kLastSequence, kCompactPointer, kDeletedFile, getLazyLevel_encode _ _ readable,
        getVarint64_encode]
  | newFile level f =>
      obtain ⟨inRange, shortSmallest, shortLargest, fresh⟩ := readable
      simp [Record.encode, decodeLoop, getVarint32_encode, parseRecord, applied, kNewFile, kComparator,
        kDeltaLevelOffset, kLogNumber, kPrevLogNumber, kNextFileNumber, kLastSequence,
        kCompactPointer, kDeletedFile, kDeletedLazyFile,
        getFileEntry_encode getLevel level f rest (getLevel_encode level · inRange)
          shortSmallest shortLargest fresh]
  | newLazyFile level f =>
      obtain rfl := known rfl
      obtain ⟨inRange, shortSmallest, shortLargest, fresh⟩ := readable
      simp [Record.encode, decodeLoop, getVarint32_encode, parseRecord, applied, kNewLazyFile,
        kComparator, kDeltaLevelOffset, kLogNumber, kPrevLogNumber, kNextFileNumber,
        kLastSequence, kCompactPointer, kDeletedFile, kDeletedLazyFile, kNewFile,
        getFileEntry_encode getLazyLevel level f rest (getLazyLevel_encode level · inRange)
          shortSmallest shortLargest fresh]

theorem Record.encode_ne_nil (r : Record) : r.encode ≠ [] := by
  cases r <;> simp [Record.encode, encodeVarint32, Varint.encode_ne_nil _ _ (by norm_num : 0 < 5)]

theorem decodeLoop_records (lazy : Bool) : ∀ (rs : List Record) (e e' : VersionEdit) (fuel : Nat),
    (∀ r ∈ rs, r.Readable ∧ (r.lazyOnly = true → lazy = true)) → e.applyRecords rs = .ok e' →
    (rs.flatMap Record.encode).length ≤ fuel →
    decodeLoop lazy fuel e (rs.flatMap Record.encode) = .decoded e' := by
  intro rs
  induction rs with
  | nil =>
      intro e e' fuel _ applied _
      simp only [VersionEdit.applyRecords, Except.ok.injEq] at applied
      subst applied
      cases fuel <;> simp [decodeLoop, getVarint32, Varint.decode]
  | cons r rs ih =>
      intro e e' fuel readable applied budget
      have consumed := Record.encode_ne_nil r
      obtain ⟨fuel, rfl⟩ : ∃ k, fuel = k + 1 := by
        have : (r.encode).length ≠ 0 := by simpa using consumed
        simp only [List.flatMap_cons, List.length_append] at budget
        exact ⟨fuel - 1, by omega⟩
      simp only [List.flatMap_cons]
      simp only [VersionEdit.applyRecords] at applied
      cases step : e.applyRecord r with
      | error level => rw [step] at applied; cases applied
      | ok next =>
          rw [step] at applied
          rw [decodeLoop_record lazy r (readable r (by simp)).1 (readable r (by simp)).2 step fuel]
          apply ih next e' fuel (fun r' member => readable r' (by simp [member])) applied
          have : (r.encode).length ≠ 0 := by simpa using consumed
          simp only [List.flatMap_cons, List.length_append] at budget
          omega

/-! ## The records of an edit rebuild it -/

theorem applyRecords_append (e : VersionEdit) (rs qs : List Record) :
    e.applyRecords (rs ++ qs) =
      match e.applyRecords rs with
      | .ok e' => e'.applyRecords qs
      | .error level => .error level := by
  induction rs generalizing e with
  | nil => rfl
  | cons r rs ih =>
      simp only [List.cons_append, VersionEdit.applyRecords]
      cases e.applyRecord r <;> simp [ih]

theorem applyRecords_compactPointers (e : VersionEdit) (pointers : List (Nat × InternalKey)) :
    e.applyRecords (pointers.map fun p => Record.compactPointer p.1 p.2) =
      .ok { e with compactPointers := e.compactPointers ++ pointers } := by
  induction pointers generalizing e with
  | nil => simp [VersionEdit.applyRecords]
  | cons p ps ih =>
      simp only [List.map_cons, VersionEdit.applyRecords, VersionEdit.applyRecord, ih]
      simp [VersionEdit.setCompactPointer]

theorem applyRecords_deletedFiles (e : VersionEdit) (files : List (Nat × UInt64)) :
    e.applyRecords (files.map fun p => Record.deletedFile p.1 p.2) =
      .ok { e with deletedFiles := files.foldl OrdSet.insert e.deletedFiles } := by
  induction files generalizing e with
  | nil => simp [VersionEdit.applyRecords]
  | cons p ps ih =>
      simp only [List.map_cons, VersionEdit.applyRecords, VersionEdit.applyRecord, ih]
      rfl

theorem applyRecords_deletedLazyFiles (e : VersionEdit) (files : List (Nat × UInt64)) :
    e.applyRecords (files.map fun p => Record.deletedLazyFile p.1 p.2) =
      .ok { e with deletedFilesLazy := files.foldl OrdSet.insert e.deletedFilesLazy } := by
  induction files generalizing e with
  | nil => simp [VersionEdit.applyRecords]
  | cons p ps ih =>
      simp only [List.map_cons, VersionEdit.applyRecords, VersionEdit.applyRecord, ih]
      rfl

theorem fresh_append {files more : List (Nat × FileMetaData)}
    (old : ∀ entry ∈ files, entry.2.allowedSeeks = defaultAllowedSeeks)
    (new : ∀ entry ∈ more, entry.2.allowedSeeks = defaultAllowedSeeks) :
    ∀ entry ∈ files ++ more, entry.2.allowedSeeks = defaultAllowedSeeks := by
  intro entry member
  rcases List.mem_append.mp member with inFiles | inMore
  · exact old entry inFiles
  · exact new entry inMore

theorem make_of_fresh (f : FileMetaData) (fresh : f.allowedSeeks = defaultAllowedSeeks) :
    FileMetaData.make f.number f.fileSize f.smallest f.largest = f := by
  cases f
  simp only at fresh
  simp [FileMetaData.make, fresh]

theorem applyRecords_newFiles (e : VersionEdit) (files : List (Nat × FileMetaData))
    (fresh : ∀ entry ∈ files, entry.2.allowedSeeks = defaultAllowedSeeks) :
    e.applyRecords (files.map fun p => Record.newFile p.1 p.2) =
      .ok { e with
        newFiles := e.newFiles ++ files
        newFilesFresh := fresh_append e.newFilesFresh fresh } := by
  induction files generalizing e with
  | nil => simp [VersionEdit.applyRecords]
  | cons p ps ih =>
      simp only [List.map_cons, VersionEdit.applyRecords, VersionEdit.applyRecord]
      rw [ih _ (fun entry member => fresh entry (by simp [member]))]
      congr 1
      apply VersionEdit.ext <;>
        simp [VersionEdit.addFile, make_of_fresh p.2 (fresh p (by simp))]

theorem applyRecords_newLazyFiles (e : VersionEdit) (files : List (Nat × FileMetaData))
    (fresh : ∀ entry ∈ files, entry.2.allowedSeeks = defaultAllowedSeeks) :
    e.applyRecords (files.map fun p => Record.newLazyFile p.1 p.2) =
      .ok { e with
        newFilesLazy := e.newFilesLazy ++ files
        newFilesLazyFresh := fresh_append e.newFilesLazyFresh fresh } := by
  induction files generalizing e with
  | nil => simp [VersionEdit.applyRecords]
  | cons p ps ih =>
      simp only [List.map_cons, VersionEdit.applyRecords, VersionEdit.applyRecord]
      rw [ih _ (fun entry member => fresh entry (by simp [member]))]
      congr 1
      apply VersionEdit.ext <;>
        simp [VersionEdit.addLazyFile, make_of_fresh p.2 (fresh p (by simp))]

theorem applyRecords_deltaMetas (e : VersionEdit) (metas : DeltaMetas) (levels : List Nat)
    (inRange : ∀ i ∈ levels, i < kLogicalLevels) :
    e.applyRecords (levels.map fun i => Record.deltaLevelOffset i (metaAt metas i)) =
      .ok { e with
        deltaMeta := levels.foldl (fun acc i => acc.setIfInBounds i (metaAt metas i)) e.deltaMeta }
      := by
  induction levels generalizing e with
  | nil => simp [VersionEdit.applyRecords]
  | cons i is ih =>
      simp only [List.map_cons, VersionEdit.applyRecords, VersionEdit.applyRecord,
        if_pos (inRange i (by simp))]
      rw [ih _ (fun j member => inRange j (by simp [member]))]
      rfl

theorem foldl_setIfInBounds_all (metas start : DeltaMetas) :
    (List.range kLogicalLevels).foldl (fun acc i => acc.setIfInBounds i (metaAt metas i)) start =
      metas := by
  apply Vector.ext
  intro j inRange
  have step : ∀ (levels : List Nat) (acc : DeltaMetas),
      (levels.foldl (fun acc i => acc.setIfInBounds i (metaAt metas i)) acc)[j] =
        if j ∈ levels then metas[j] else acc[j] := by
    intro levels
    induction levels with
    | nil => intro acc; simp
    | cons i is ih =>
        intro acc
        simp only [List.foldl_cons, ih, List.mem_cons]
        by_cases later : j ∈ is
        · simp [later]
        · by_cases same : j = i
          · subst same
            simp [later, Vector.getElem_setIfInBounds_self, metaAt, Vector.getD,
              Array.getD, inRange]
          · simp [later, same, Vector.getElem_setIfInBounds_ne inRange (Ne.symm same)]
  rw [step]
  simp [inRange]

/-- Every level, key and length of an edit within what the lazy reader reads
back. -/
structure VersionEdit.Readable (e : VersionEdit) : Prop where
  comparatorShort : ∀ name ∈ e.comparator, name.length < 2 ^ 32
  compactPointerLevels : ∀ p ∈ e.compactPointers, p.1 < kNumLevels
  compactPointerKeys : ∀ p ∈ e.compactPointers, p.2.rep.length < 2 ^ 32
  deletedLevels : ∀ p ∈ e.deletedFiles.elems, p.1 < kNumLevels
  deletedLazyLevels : ∀ p ∈ e.deletedFilesLazy.elems, p.1 < kNumLazyLevels
  newFileLevels : ∀ p ∈ e.newFiles, p.1 < kNumLevels
  newFileKeys : ∀ p ∈ e.newFiles, p.2.smallest.rep.length < 2 ^ 32 ∧
    p.2.largest.rep.length < 2 ^ 32
  newLazyFileLevels : ∀ p ∈ e.newFilesLazy, p.1 < kNumLazyLevels
  newLazyFileKeys : ∀ p ∈ e.newFilesLazy, p.2.smallest.rep.length < 2 ^ 32 ∧
    p.2.largest.rep.length < 2 ^ 32

theorem VersionEdit.Readable.records {e : VersionEdit} (readable : e.Readable) :
    ∀ r ∈ e.records true, r.Readable := by
  intro r member
  simp only [VersionEdit.records, if_true, List.mem_append, List.mem_map, Option.mem_toList,
    Option.map_eq_some_iff, List.mem_range] at member
  rcases member with ((((((((((⟨name, some, rfl⟩ | ⟨_, _, rfl⟩) | ⟨_, _, rfl⟩) | ⟨_, _, rfl⟩) |
    ⟨_, _, rfl⟩) | ⟨p, inList, rfl⟩) | ⟨i, below, rfl⟩) | ⟨p, inList, rfl⟩) | ⟨p, inList, rfl⟩) |
    ⟨p, inList, rfl⟩) | ⟨p, inList, rfl⟩)
  · exact readable.comparatorShort name some
  · trivial
  · trivial
  · trivial
  · trivial
  · exact ⟨readable.compactPointerLevels p inList, readable.compactPointerKeys p inList⟩
  · exact below
  · exact readable.deletedLevels p inList
  · exact readable.deletedLazyLevels p inList
  · exact ⟨readable.newFileLevels p inList, (readable.newFileKeys p inList).1,
      (readable.newFileKeys p inList).2, e.newFilesFresh p inList⟩
  · exact ⟨readable.newLazyFileLevels p inList, (readable.newLazyFileKeys p inList).1,
      (readable.newLazyFileKeys p inList).2, e.newFilesLazyFresh p inList⟩

theorem applyRecords_optional {β : Type} (e : VersionEdit) (value : Option β) (make : β → Record)
    (set : VersionEdit → Option β → VersionEdit)
    (applies : ∀ v, e.applyRecord (make v) = .ok (set e (some v))) (unset : set e none = e) :
    e.applyRecords (value.map make).toList = .ok (set e value) := by
  cases value with
  | none => simp [VersionEdit.applyRecords, unset]
  | some v => simp [VersionEdit.applyRecords, applies]

/-- Applying an edit's records to a fresh edit gives the edit back. -/
theorem applyRecords_records (e : VersionEdit) :
    VersionEdit.empty.applyRecords (e.records true) = .ok e := by
  simp only [VersionEdit.records, if_true, applyRecords_append]
  rw [applyRecords_optional _ e.comparator Record.comparator
    (fun e c => { e with comparator := c }) (fun _ => rfl) rfl]
  simp only
  rw [applyRecords_optional _ e.logNumber Record.logNumber
    (fun e n => { e with logNumber := n }) (fun _ => rfl) rfl]
  simp only
  rw [applyRecords_optional _ e.prevLogNumber Record.prevLogNumber
    (fun e n => { e with prevLogNumber := n }) (fun _ => rfl) rfl]
  simp only
  rw [applyRecords_optional _ e.nextFileNumber Record.nextFileNumber
    (fun e n => { e with nextFileNumber := n }) (fun _ => rfl) rfl]
  simp only
  rw [applyRecords_optional _ e.lastSequence Record.lastSequence
    (fun e n => { e with lastSequence := n }) (fun _ => rfl) rfl]
  simp only [applyRecords_compactPointers]
  rw [applyRecords_deltaMetas _ _ _ (fun i member => List.mem_range.mp member)]
  simp only [applyRecords_deletedFiles, applyRecords_deletedLazyFiles]
  rw [applyRecords_newFiles _ e.newFiles e.newFilesFresh]
  simp only
  rw [applyRecords_newLazyFiles _ e.newFilesLazy e.newFilesLazyFresh]
  congr 1
  apply VersionEdit.ext
  · rfl
  · rfl
  · rfl
  · rfl
  · rfl
  · exact List.nil_append _
  · exact OrdSet.ofList_elems e.deletedFiles
  · exact List.nil_append _
  · exact OrdSet.ofList_elems e.deletedFilesLazy
  · exact List.nil_append _
  · exact foldl_setIfInBounds_all e.deltaMeta _

/-- What a `BasicVersionEdit` holds of an edit: everything but the lazy files
and the delta metas. -/
def VersionEdit.withoutLazy (e : VersionEdit) : VersionEdit :=
  { e with
    deletedFilesLazy := ∅
    newFilesLazy := []
    deltaMeta := initialDeltaMetas
    newFilesLazyFresh := VersionEdit.empty.newFilesLazyFresh }

theorem applyRecords_basicRecords (e : VersionEdit) :
    VersionEdit.empty.applyRecords (e.records false) = .ok e.withoutLazy := by
  simp only [VersionEdit.records, Bool.false_eq_true, if_false, List.append_nil,
    applyRecords_append]
  rw [applyRecords_optional _ e.comparator Record.comparator
    (fun e c => { e with comparator := c }) (fun _ => rfl) rfl]
  simp only
  rw [applyRecords_optional _ e.logNumber Record.logNumber
    (fun e n => { e with logNumber := n }) (fun _ => rfl) rfl]
  simp only
  rw [applyRecords_optional _ e.prevLogNumber Record.prevLogNumber
    (fun e n => { e with prevLogNumber := n }) (fun _ => rfl) rfl]
  simp only
  rw [applyRecords_optional _ e.nextFileNumber Record.nextFileNumber
    (fun e n => { e with nextFileNumber := n }) (fun _ => rfl) rfl]
  simp only
  rw [applyRecords_optional _ e.lastSequence Record.lastSequence
    (fun e n => { e with lastSequence := n }) (fun _ => rfl) rfl]
  simp only [applyRecords_compactPointers, applyRecords_deletedFiles]
  rw [applyRecords_newFiles _ e.newFiles e.newFilesFresh]
  congr 1
  apply VersionEdit.ext
  · rfl
  · rfl
  · rfl
  · rfl
  · rfl
  · exact List.nil_append _
  · exact OrdSet.ofList_elems e.deletedFiles
  · exact List.nil_append _
  · rfl
  · rfl
  · rfl

theorem Record.lazyOnly_of_basic {e : VersionEdit} {r : Record} (member : r ∈ e.records false) :
    r.lazyOnly = false := by
  simp only [VersionEdit.records, Bool.false_eq_true, if_false, List.append_nil, List.mem_append,
    List.mem_map, Option.mem_toList, Option.map_eq_some_iff] at member
  rcases member with ((((((⟨_, _, rfl⟩ | ⟨_, _, rfl⟩) | ⟨_, _, rfl⟩) | ⟨_, _, rfl⟩) |
    ⟨_, _, rfl⟩) | ⟨_, _, rfl⟩) | ⟨_, _, rfl⟩) | ⟨_, _, rfl⟩ <;> rfl

theorem VersionEdit.records_basic_subset (e : VersionEdit) : e.records false ⊆ e.records true := by
  intro r member
  simp only [VersionEdit.records, Bool.false_eq_true, if_false, if_true, List.append_nil,
    List.mem_append] at member ⊢
  tauto

theorem decodeWith_encodeWith (lazy : Bool) (e : VersionEdit) (readable : e.Readable) :
    VersionEdit.empty.decodeWith lazy (e.encodeWith lazy []) =
      .decoded (if lazy then e else e.withoutLazy) := by
  simp only [VersionEdit.decodeWith, VersionEdit.encodeWith, List.nil_append]
  cases lazy with
  | true =>
      exact decodeLoop_records true _ _ _ _ (fun r member => ⟨readable.records r member, fun _ => rfl⟩)
        (applyRecords_records e) (Nat.le_refl _)
  | false =>
      refine decodeLoop_records false _ _ _ _ (fun r member => ⟨?_, ?_⟩) (applyRecords_basicRecords e)
        (Nat.le_refl _)
      · exact readable.records r (e.records_basic_subset member)
      · simp [Record.lazyOnly_of_basic member]

/-! ## The round trip -/

/-- A fresh `LazyVersionEdit` decodes an encoded readable edit to that same
edit, field by field; encoding it again therefore gives the same bytes. -/
theorem LazyVersionEdit.decodeFrom_encodeTo (e : VersionEdit) (readable : e.Readable) :
    LazyVersionEdit.decodeFrom VersionEdit.empty (LazyVersionEdit.encodeTo e []) = .decoded e := by
  simp only [LazyVersionEdit.decodeFrom, LazyVersionEdit.encodeTo, VersionEdit.decodeWith,
    VersionEdit.encodeWith, List.nil_append]
  exact decodeLoop_records true _ _ _ _ (fun r member => ⟨readable.records r member, fun _ => rfl⟩)
    (applyRecords_records e) (Nat.le_refl _)

/-- One round of the edit built by `VersionEditTest.EncodeDecode` (`kBig = 2 ^ 50`). -/
def encodeDecodeTestEdit : VersionEdit :=
  let kBig : UInt64 := 2 ^ 50
  let foo : Bytes := [102, 111, 111]
  let zoo : Bytes := [122, 111, 111]
  (((((((((VersionEdit.empty.addFile 3 (kBig + 300) (kBig + 400)
      (InternalKey.make foo (kBig + 500) .kTypeValue)
      (InternalKey.make zoo (kBig + 600) .kTypeDeletion)).addLazyFile 5 (kBig + 300) (kBig + 400)
      (InternalKey.make foo (kBig + 500) .kTypeValue)
      (InternalKey.make zoo (kBig + 600) .kTypeDeletion)).deleteFile 4 (kBig + 700)).deleteLazyFile
      6 (kBig + 700)).setCompactPointer 0 (InternalKey.make [120] (kBig + 900) .kTypeValue))
      |>.setComparatorName foo).setLogNumber (kBig + 100)).setNextFile (kBig + 200))
      |>.setLastSequence (kBig + 1000))

theorem encodeDecodeTestEdit_roundTrip :
    encodeDecodeTestEdit.Readable ∧
      LazyVersionEdit.decodeFrom VersionEdit.empty (LazyVersionEdit.encodeTo encodeDecodeTestEdit [])
        = .decoded encodeDecodeTestEdit := by
  have readable : encodeDecodeTestEdit.Readable := by
    constructor <;> decide
  exact ⟨readable, LazyVersionEdit.decodeFrom_encodeTo encodeDecodeTestEdit readable⟩

theorem decodeFrom_encodeTo_wrappedComparator (tail : Bytes)
    (wraps : (0 :: tail).length % 2 ^ 32 = 0) :
    LazyVersionEdit.decodeFrom VersionEdit.empty
        (LazyVersionEdit.encodeTo (VersionEdit.empty.setComparatorName (0 :: tail)) []) =
      .corrupt "unknown tag" := by
  have lengthWord : UInt32.ofNat (0 :: tail).length = 0 := by
    apply UInt32.toNat_inj.mp
    simpa using wraps
  have zeroByte : ∀ rest : Bytes, (0 : UInt8) :: rest = encodeVarint32 0 ++ rest := fun _ => rfl
  generalize deltas : ((List.range kLogicalLevels).map fun i =>
      Record.deltaLevelOffset i (metaAt initialDeltaMetas i)).flatMap Record.encode = rest
  have src : LazyVersionEdit.encodeTo (VersionEdit.empty.setComparatorName (0 :: tail)) [] =
      encodeVarint32 1 ++ (encodeVarint32 0 ++ (encodeVarint32 0 ++ (tail ++ rest))) := by
    simp only [LazyVersionEdit.encodeTo, VersionEdit.encodeWith, VersionEdit.records,
      VersionEdit.setComparatorName, VersionEdit.empty, Option.map_some, Option.toList_some,
      Option.map_none, Option.toList_none, List.nil_append, List.map_nil, List.append_nil, if_true,
      OrdSet.elems_empty, List.flatMap_append, List.flatMap_cons, List.flatMap_nil, deltas,
      Record.encode, putLengthPrefixedSlice_eq, lengthWord, kComparator]
    rw [zeroByte]
    simp only [List.append_assoc]
  obtain ⟨k, budget⟩ : ∃ k, (encodeVarint32 1 ++ (encodeVarint32 0 ++ (encodeVarint32 0 ++
      (tail ++ rest)))).length = k + 2 :=
    ⟨(tail ++ rest).length + 1, by simp [encodeVarint32, Varint.encode]⟩
  simp only [LazyVersionEdit.decodeFrom, VersionEdit.decodeWith, src, budget]
  -- the first round reads the comparator record with an empty name
  have firstRound : decodeLoop true (k + 2) VersionEdit.empty.clear
      (encodeVarint32 1 ++ (encodeVarint32 0 ++ (encodeVarint32 0 ++ (tail ++ rest)))) =
      decodeLoop true (k + 1) (VersionEdit.empty.clear.setComparatorName [])
        (encodeVarint32 0 ++ (tail ++ rest)) := by
    have emptyName : getLengthPrefixedSlice (encodeVarint32 0 ++
        (encodeVarint32 0 ++ (tail ++ rest))) = some ([], encodeVarint32 0 ++ (tail ++ rest)) := by
      simp [getLengthPrefixedSlice, getVarint32_encode]
    simp [decodeLoop, getVarint32_encode, parseRecord, kComparator, emptyName,
      VersionEdit.applyRecord]
  -- the second round reads the name's first byte as the tag `0`
  rw [firstRound]
  simp [decodeLoop, getVarint32_encode, parseRecord, kComparator, kDeltaLevelOffset, kLogNumber,
    kPrevLogNumber, kNextFileNumber, kLastSequence, kCompactPointer, kDeletedFile,
    kDeletedLazyFile, kNewFile, kNewLazyFile]

/-- A comparator name of `2 ^ 32` zero bytes does not survive the round trip. -/
theorem decodeFrom_encodeTo_longComparator :
    LazyVersionEdit.decodeFrom VersionEdit.empty
        (LazyVersionEdit.encodeTo
          (VersionEdit.empty.setComparatorName (List.replicate (2 ^ 32) 0)) []) =
      .corrupt "unknown tag" := by
  have split : List.replicate (2 ^ 32) (0 : UInt8) = 0 :: List.replicate (2 ^ 32 - 1) 0 := by
    rw [← List.replicate_succ]
    congr
  rw [split]
  apply decodeFrom_encodeTo_wrappedComparator
  rw [← split, List.length_replicate, Nat.mod_self]

/-! ## Delta-level records the writer never produces

`DecodeFrom` reads the level of a delta-level record with `GetLazyLevel`,
whose bound is `kNumLazyLevels`, and writes `delta_meta_[level]`, an array of
`kLogicalLevels` entries; the values it stores are checked only by an
`assert`. -/

theorem decodeLoop_deltaLevelPastEnd (e : VersionEdit) {level : Nat} (dm : DeltaLevelMeta)
    (pastEnd : kLogicalLevels ≤ level) (inRange : level < kNumLazyLevels) (fuel : Nat)
    (rest : Bytes) :
    decodeLoop true (fuel + 1) e ((Record.deltaLevelOffset level dm).encode ++ rest) =
      .outOfBounds level := by
  have notLogical : ¬ level < kLogicalLevels := by omega
  simp [Record.encode, decodeLoop, getVarint32_encode, parseRecord, kDeltaLevelOffset, kComparator,
    getLazyLevel_encode _ _ inRange, VersionEdit.applyRecord, notLogical]

theorem decodeLoop_deltaLevel (e : VersionEdit) {level : Nat} (dm : DeltaLevelMeta)
    (inRange : level < kLogicalLevels) (fuel : Nat) (rest : Bytes) :
    decodeLoop true (fuel + 1) e ((Record.deltaLevelOffset level dm).encode ++ rest) =
      decodeLoop true fuel { e with deltaMeta := e.deltaMeta.setIfInBounds level dm } rest :=
  decodeLoop_record true (.deltaLevelOffset level dm) inRange (fun _ => rfl)
    (by simp [VersionEdit.applyRecord, inRange]) fuel rest

theorem length_encode_pos (r : Record) (rest : Bytes) :
    ∃ k, (r.encode ++ rest).length = k + 1 := by
  have nonempty := Record.encode_ne_nil r
  have positive : 0 < r.encode.length := List.length_pos_iff.mpr nonempty
  exact ⟨(r.encode ++ rest).length - 1, by simp only [List.length_append]; omega⟩

/-- Whatever follows it, a delta-level record for a level in
`kLogicalLevels .. kNumLazyLevels - 1` makes `DecodeFrom` write past
`delta_meta_` instead of reporting corruption. -/
theorem LazyVersionEdit.decodeFrom_deltaLevelPastEnd (e : VersionEdit) {level : Nat}
    (dm : DeltaLevelMeta) (pastEnd : kLogicalLevels ≤ level) (inRange : level < kNumLazyLevels)
    (rest : Bytes) :
    LazyVersionEdit.decodeFrom e ((Record.deltaLevelOffset level dm).encode ++ rest) =
      .outOfBounds level := by
  obtain ⟨k, budget⟩ := length_encode_pos (Record.deltaLevelOffset level dm) rest
  simp only [LazyVersionEdit.decodeFrom, VersionEdit.decodeWith, budget]
  exact decodeLoop_deltaLevelPastEnd _ dm pastEnd inRange k rest

/-- The five bytes `12 8 0 0 1`: a delta-level record for logical level `8`. -/
theorem decodeFrom_deltaLevelEight :
    (Record.deltaLevelOffset 8 ⟨0, 0, 1⟩).encode ++ [] = [12, 8, 0, 0, 1] ∧
      LazyVersionEdit.decodeFrom VersionEdit.empty
        ((Record.deltaLevelOffset 8 ⟨0, 0, 1⟩).encode ++ []) = .outOfBounds 8 :=
  ⟨by decide,
    LazyVersionEdit.decodeFrom_deltaLevelPastEnd VersionEdit.empty ⟨0, 0, 1⟩ (by decide) (by decide) []⟩

theorem LazyVersionEdit.decodeFrom_deltaLevel (e : VersionEdit) {level : Nat} (dm : DeltaLevelMeta)
    (inRange : level < kLogicalLevels) :
    LazyVersionEdit.decodeFrom e (Record.deltaLevelOffset level dm).encode =
      .decoded { e.clear with deltaMeta := e.clear.deltaMeta.setIfInBounds level dm } := by
  obtain ⟨k, budget⟩ := length_encode_pos (Record.deltaLevelOffset level dm) []
  rw [List.append_nil] at budget
  simp only [LazyVersionEdit.decodeFrom, VersionEdit.decodeWith, budget]
  rw [← List.append_nil (Record.deltaLevelOffset level dm).encode, decodeLoop_deltaLevel _ dm inRange]
  cases k <;> simp [decodeLoop, getVarint32, Varint.decode]

example : (DeltaLevelMeta.mk 25 0 1).isValidDetlaMeta = false := by decide

end HLsm
