import HLsm.Lib.CString
import HLsm.Storage

/-! # File names (`db/filename.cc`) and the hLSM helpers that read them

`MakeFileName` writes `dbname/%06llu.suffix`, and `ParseFileName` reads a name
as `GetChildren` lists it, by its last path component
(`parseFileName_makeFileName`).  The helpers of `hlsm_func.h` read names with
searches over the whole path instead:

* `table_name_to_number` takes the characters after the last `/`, as many as
  the position of the first `ldb` less one.  Under a directory without `ldb`
  the cut falls after the digits and the number comes back, wrapped to `int`
  (`tableNameToNumber_tableFileName`).  Under one with `ldb` the digits are cut
  at that position (`tableNameToNumber_dirWithLdb`): under `/tmp/ldb`, table 5
  reads as 0.
* `is_mirrored_write (fname)` takes every name with `ldb` in it for a table.
  For a table under a directory without `ldb` it is the level test
  `isMirroredWrite` (`isMirroredWriteName_tableFileName`), and the other names
  are never mirrored (`isMirroredWriteName_nonTable`); with full mirroring,
  every name under a directory such as `/tmp/leveldbtest` is
  (`isMirroredWriteName_fullMirror`).
* `relocate_file` leaves a name in place when `.ldb` occurs in it, which every
  table name does (`fileHasSuffix_tableFileName`).  `ParseFileName` also takes
  `.sst` names for tables; `relocate_file` moves those to the secondary store
  (`relocateFile_sstTable`).
-/

set_option autoImplicit false

namespace HLsm

open CString

/-! ## `db/filename.cc` -/

/-- `FileType`. -/
inductive FileType where
  | kLogFile
  | kDBLockFile
  | kTableFile
  | kDescriptorFile
  | kCurrentFile
  | kTempFile
  | kInfoLogFile
  deriving DecidableEq, Repr

/-- `MakeFileName`: `name`, then `/%06llu.` and the suffix. -/
def makeFileName (name : List Char) (number : UInt64) (suffix : List Char) : List Char :=
  name ++ '/' :: (padDecimal 6 number.toNat ++ '.' :: suffix)

def logFileName (name : List Char) (number : UInt64) : List Char :=
  makeFileName name number "log".toList

def tableFileName (name : List Char) (number : UInt64) : List Char :=
  makeFileName name number "ldb".toList

def sstTableFileName (name : List Char) (number : UInt64) : List Char :=
  makeFileName name number "sst".toList

def descriptorFileName (dbname : List Char) (number : UInt64) : List Char :=
  dbname ++ '/' :: ("MANIFEST-".toList ++ padDecimal 6 number.toNat)

def currentFileName (dbname : List Char) : List Char :=
  dbname ++ '/' :: "CURRENT".toList

def tempFileName (dbname : List Char) (number : UInt64) : List Char :=
  makeFileName dbname number "dbtmp".toList

def infoLogFileName (dbname : List Char) : List Char :=
  dbname ++ '/' :: "LOG".toList

/-- The loop of `ConsumeDecimalNumber` from the value `v` after `digits`
digits; `none` where the next digit would take it past `2^64 - 1`. -/
def consumeDecimalLoop (v digits : Nat) : List Char → Option (Nat × Nat × List Char)
  | [] => some (v, digits, [])
  | c :: rest =>
      if c.isDigit then
        let delta := c.toNat - 48
        let kMaxUint64 := 2 ^ 64 - 1
        if v > kMaxUint64 / 10 || (v == kMaxUint64 / 10 && delta > kMaxUint64 % 10) then none
        else consumeDecimalLoop (10 * v + delta) (digits + 1) rest
      else some (v, digits, c :: rest)

/-- `ConsumeDecimalNumber`: the number and the input after its digits. -/
def consumeDecimalNumber (input : List Char) : Option (UInt64 × List Char) :=
  match consumeDecimalLoop 0 0 input with
  | some (v, digits, rest) => if digits > 0 then some (UInt64.ofNat v, rest) else none
  | none => none

/-- The suffix test that ends `ParseFileName`. -/
def suffixType (suffix : List Char) : Option FileType :=
  if suffix = ".log".toList then some .kLogFile
  else if suffix = ".sst".toList ∨ suffix = ".ldb".toList then some .kTableFile
  else if suffix = ".dbtmp".toList then some .kTempFile
  else none

/-- `ParseFileName`, on a name without its directory. -/
def parseFileName (fname : List Char) : Option (UInt64 × FileType) :=
  if fname = "CURRENT".toList then some (0, .kCurrentFile)
  else if fname = "LOCK".toList then some (0, .kDBLockFile)
  else if fname = "LOG".toList ∨ fname = "LOG.old".toList then some (0, .kInfoLogFile)
  else if "MANIFEST-".toList <+: fname then
    match consumeDecimalNumber (fname.drop 9) with
    | some (num, []) => some (num, .kDescriptorFile)
    | _ => none
  else
    match consumeDecimalNumber fname with
    | some (num, suffix) => (suffixType suffix).map (num, ·)
    | none => none

def baseName (fname : List Char) : List Char :=
  match findLastOf fname '/' with
  | some m => fname.drop (m + 1)
  | none => fname

/-! ## `hlsm_func.h` -/

/-- `table_name_to_number`; `none` where `substr` would throw. -/
def tableNameToNumber (fname : List Char) : Option Int32 :=
  let n := find fname "ldb".toList
  let m := findLastOf fname '/'
  (substr fname (nextPos m) (prevPos n)).map atoi

/-- `is_mirrored_write (fname, pure)`; `none` where `substr` would throw. -/
def isMirroredWriteName (rt : Runtime) (m : MirrorState) (fname : List Char) (pure : Bool) :
    Option Bool :=
  match find fname "ldb".toList with
  | none => some false
  | some n =>
      if !rt.hasSecondary then some false
      else if rt.fullMirror then some true
      else
        (substr fname (nextPos (findLastOf fname '/')) (prevPos (some n))).map fun digits =>
          -- the `int` that `atoi` returns goes to the `uint64_t` overload
          let number := UInt64.ofInt (atoi digits).toInt
          if pure then m.withinPureMirroredLevel rt number else m.withinMirroredLevel rt number

/-- The globals `relocate_file` reads. -/
structure Placement where
  secondaryStoragePath : List Char
  logOnPrimary : Bool
  metaOnPrimary : Bool

/-- `FILE_HAS_SUFFIX (fname, str)`, which looks for `str` anywhere in `fname`. -/
def fileHasSuffix (fname str : List Char) : Bool :=
  (find fname str).isSome

/-- `PRIMARY_TO_SECONDARY_FILE`: the secondary path, then `fname` from its
last `/` on. -/
def primaryToSecondaryFile (secondaryStoragePath fname : List Char) : Option (List Char) :=
  (substr fname ((findLastOf fname '/').getD npos) npos).map (secondaryStoragePath ++ ·)

def relocateFile (p : Placement) (fname : List Char) : Option (List Char) :=
  if fileHasSuffix fname ".ldb".toList then some fname
  else if fileHasSuffix fname ".log".toList && !p.logOnPrimary then
    primaryToSecondaryFile p.secondaryStoragePath fname
  else if !p.metaOnPrimary then primaryToSecondaryFile p.secondaryStoragePath fname
  else some fname

/-! ## Where the searches land in a made name -/

section Layout

variable (dir : List Char) (number : UInt64)

theorem not_mem_padDecimal {c : Char} (notDigit : c.isDigit = false) (w n : Nat) :
    c ∉ padDecimal w n := fun mem => by
  simp [isDigit_of_mem_padDecimal mem] at notDigit

theorem findLastOf_makeFileName (suffix : List Char) (noSlash : '/' ∉ suffix) :
    findLastOf (makeFileName dir number suffix) '/' = some dir.length := by
  apply findLastOf_append_cons
  simp only [List.mem_append, List.mem_cons, not_or]
  exact ⟨not_mem_padDecimal (by decide) _ _, by decide, noSlash⟩

theorem drop_makeFileName (suffix : List Char) :
    (makeFileName dir number suffix).drop (dir.length + 1) = padDecimal 6 number.toNat ++ '.' :: suffix := by
  simp [makeFileName]

theorem baseName_makeFileName (suffix : List Char) (noSlash : '/' ∉ suffix) :
    baseName (makeFileName dir number suffix) = padDecimal 6 number.toNat ++ '.' :: suffix := by
  rw [baseName, findLastOf_makeFileName dir number suffix noSlash]
  exact drop_makeFileName dir number suffix

end Layout

/-! ## `ParseFileName` reads back what `MakeFileName` wrote -/

theorem consumeDecimal_overflow_iff (v delta : Nat) (digit : delta < 10) :
    (v > (2 ^ 64 - 1) / 10 || (v == (2 ^ 64 - 1) / 10 && delta > (2 ^ 64 - 1) % 10)) =
      decide (10 * v + delta > 2 ^ 64 - 1) := by
  by_cases passes : 10 * v + delta > 2 ^ 64 - 1
  · simp only [passes, decide_true, Bool.or_eq_true, decide_eq_true_eq, Bool.and_eq_true, beq_iff_eq]
    omega
  · simp only [passes, decide_false, Bool.or_eq_false_iff, decide_eq_false_iff_not,
      Bool.and_eq_false_imp, beq_iff_eq]
    omega

theorem consumeDecimalLoop_digits {c : Char} (rest : List Char) (stop : c.isDigit = false) :
    ∀ (ds : List Char) (v k : Nat), (∀ d ∈ ds, d.isDigit) → decimalFrom v ds ≤ 2 ^ 64 - 1 →
      consumeDecimalLoop v k (ds ++ c :: rest) = some (decimalFrom v ds, k + ds.length, c :: rest) := by
  intro ds
  induction ds with
  | nil =>
      intro v k _ _
      simp [consumeDecimalLoop, stop, decimalFrom]
  | cons d ds ih =>
      intro v k digits fits
      have digit : d.isDigit := digits d List.mem_cons_self
      have delta : d.toNat - 48 < 10 := by
        have := Char.isDigit_iff_toNat.mp digit
        simp at this
        omega
      -- the value after this digit is at most the value after the run
      have step : 10 * v + (d.toNat - 48) ≤ 2 ^ 64 - 1 :=
        Nat.le_trans (le_decimalFrom _ ds) fits
      have noOverflow := consumeDecimal_overflow_iff v _ delta
      simp only [Nat.not_lt.mpr step, decide_false] at noOverflow
      have inner := ih (10 * v + (d.toNat - 48)) (k + 1) (fun e mem => digits e (List.mem_cons_of_mem d mem)) fits
      simp only [List.cons_append, consumeDecimalLoop, digit, if_true, noOverflow,
        Bool.false_eq_true, if_false, inner]
      simp [decimalFrom, Nat.add_assoc, Nat.add_comm 1]

theorem consumeDecimalNumber_padDecimal (w : Nat) (n : UInt64) {c : Char} (rest : List Char)
    (stop : c.isDigit = false) :
    consumeDecimalNumber (padDecimal w n.toNat ++ c :: rest) = some (n, c :: rest) := by
  have fits : decimalFrom 0 (padDecimal w n.toNat) ≤ 2 ^ 64 - 1 := by
    rw [decimalFrom_padDecimal]
    have := n.toNat_lt
    omega
  have nonempty : 0 < (padDecimal w n.toNat).length := List.length_pos_of_ne_nil (padDecimal_ne_nil w _)
  simp [consumeDecimalNumber, consumeDecimalLoop_digits rest stop _ 0 0
    (fun _ => isDigit_of_mem_padDecimal) fits, decimalFrom_padDecimal, nonempty]

theorem parseFileName_numbered (n : UInt64) (suffix : List Char) :
    parseFileName (padDecimal 6 n.toNat ++ '.' :: suffix) = (suffixType ('.' :: suffix)).map (n, ·) := by
  obtain ⟨d, ds, split⟩ := List.exists_cons_of_ne_nil (padDecimal_ne_nil 6 n.toNat)
  have digit : d.isDigit := isDigit_of_mem_padDecimal (split ▸ List.mem_cons_self)
  -- the name starts with a digit, which no fixed name and no `MANIFEST-` does
  have differs : ∀ (ys : List Char) (c : Char), ys.head? = some c → c.isDigit = false →
      padDecimal 6 n.toNat ++ '.' :: suffix ≠ ys := by
    intro ys c head notDigit same
    rw [← same, split, List.cons_append, List.head?_cons, Option.some.injEq] at head
    subst head
    simp [digit] at notDigit
  have notManifest : ¬ "MANIFEST-".toList <+: padDecimal 6 n.toNat ++ '.' :: suffix := by
    rintro ⟨t, named⟩
    exact differs _ 'M' rfl (by decide) named.symm
  rw [parseFileName, if_neg (differs _ 'C' rfl (by decide)), if_neg (differs _ 'L' rfl (by decide)),
    if_neg (by rintro (named | named) <;> exact differs _ 'L' rfl (by decide) named),
    if_neg notManifest, consumeDecimalNumber_padDecimal 6 n suffix (by decide)]

theorem parseFileName_makeFileName (dir : List Char) (n : UInt64) (suffix : List Char)
    (noSlash : '/' ∉ suffix) :
    parseFileName (baseName (makeFileName dir n suffix)) = (suffixType ('.' :: suffix)).map (n, ·) := by
  rw [baseName_makeFileName dir n suffix noSlash, parseFileName_numbered]

/-! ## `table_name_to_number` and `is_mirrored_write` -/

section TableNames

variable (dir : List Char) (number : UInt64)

theorem ldb_toList : "ldb".toList = ['l', 'd', 'b'] := rfl

theorem find_tableFileName (noLdb : ¬ "ldb".toList <:+: dir) :
    find (tableFileName dir number) "ldb".toList =
      some (dir.length + (padDecimal 6 number.toNat).length + 1 + 1) := by
  have inSuffix : find ['.', 'l', 'd', 'b'] ['l', 'd', 'b'] = some 1 := by decide
  rw [tableFileName, makeFileName, find_append_sep (by decide) noLdb, ldb_toList,
    find_append_of_head_not_mem (not_mem_padDecimal (by decide) 6 _)]
  simp only [inSuffix, Option.map_some, Option.some.injEq]
  omega

theorem atoi_substr_tableFileName (noLdb : ¬ "ldb".toList <:+: dir) :
    (substr (tableFileName dir number) (nextPos (findLastOf (tableFileName dir number) '/'))
        (prevPos (find (tableFileName dir number) "ldb".toList))).map atoi =
      some (Int32.ofInt (min (number.toNat : Int) (2 ^ 63 - 1))) := by
  have slash := findLastOf_makeFileName dir number "ldb".toList (by decide)
  rw [← tableFileName] at slash
  rw [find_tableFileName dir number noLdb, slash, nextPos, prevPos,
    substr_of_le _ (by simp [tableFileName, makeFileName]), tableFileName, drop_makeFileName]
  -- the cut falls past the dot, so the digits and the dot are kept
  have kept : (padDecimal 6 number.toNat ++ '.' :: "ldb".toList).take
      (dir.length + (padDecimal 6 number.toNat).length + 1) =
      padDecimal 6 number.toNat ++ '.' :: "ldb".toList.take dir.length := by
    rw [List.take_append, List.take_of_length_le (by omega),
      show dir.length + (padDecimal 6 number.toNat).length + 1 - (padDecimal 6 number.toNat).length =
        dir.length + 1 by omega, List.take_succ_cons]
  rw [kept, Option.map_some, atoi, strtol_padDecimal_append 6 _ '.' _ (by decide)]

/-- Under a directory without `ldb`, `table_name_to_number` returns the table's
number, as `atoi` converts it to `int`. -/
theorem tableNameToNumber_tableFileName (noLdb : ¬ "ldb".toList <:+: dir) :
    tableNameToNumber (tableFileName dir number) =
      some (Int32.ofInt (min (number.toNat : Int) (2 ^ 63 - 1))) :=
  atoi_substr_tableFileName dir number noLdb

theorem toInt_ofInt_of_lt {n : Nat} (small : n < 2 ^ 31) : (Int32.ofInt n).toInt = n := by
  rw [Int32.toInt_ofInt]
  exact Int.bmod_eq_of_le (by omega) (by simp [Int32.size]; omega)

theorem tableNameToNumber_tableFileName_of_lt (noLdb : ¬ "ldb".toList <:+: dir)
    (small : number.toNat < 2 ^ 31) :
    (tableNameToNumber (tableFileName dir number)).map Int32.toInt = some (number.toNat : Int) := by
  have fits : min (number.toNat : Int) (2 ^ 63 - 1) = number.toNat := by omega
  rw [tableNameToNumber_tableFileName dir number noLdb, fits, Option.map_some, toInt_ofInt_of_lt small]

/-- Under a directory holding `ldb` at `p > 0`, `table_name_to_number` reads
only the first `p - 1` characters of the table's own name. -/
theorem tableNameToNumber_dirWithLdb {p : Nat} (found : find dir "ldb".toList = some p)
    (inside : 0 < p) :
    tableNameToNumber (tableFileName dir number) =
      some (atoi ((padDecimal 6 number.toNat ++ '.' :: "ldb".toList).take (p - 1))) := by
  have ldbAt : find (tableFileName dir number) "ldb".toList = some p := find_append_left found
  have slash := findLastOf_makeFileName dir number "ldb".toList (by decide)
  rw [← tableFileName] at slash
  obtain ⟨q, rfl⟩ : ∃ q, p = q + 1 := ⟨p - 1, by omega⟩
  rw [tableNameToNumber, ldbAt, slash, nextPos, prevPos,
    substr_of_le _ (by simp [tableFileName, makeFileName]), tableFileName, drop_makeFileName]
  rfl

/-- Under `/tmp/ldb`, table 5 reads as table 0. -/
theorem tableNameToNumber_tmpLdb :
    find "/tmp/ldb".toList "ldb".toList = some 5 ∧ 0 < 5 ∧
      tableNameToNumber (tableFileName "/tmp/ldb".toList 5) = some 0 :=
  ⟨by decide, by decide,
    (@tableNameToNumber_dirWithLdb "/tmp/ldb".toList 5 5 (by decide) (by decide)).trans (by decide)⟩

theorem uint64_ofInt_toNat (n : UInt64) : UInt64.ofInt (n.toNat : Int) = n := by
  have small := n.toNat_lt
  rw [UInt64.ofInt, Int.emod_eq_of_lt (by omega) (by omega), Int.toNat_natCast, UInt64.ofNat_toNat]

/-- For a table under a directory without `ldb`, whose number fits an `int`,
`is_mirrored_write (fname)` is the level test on the table's number. -/
theorem isMirroredWriteName_tableFileName (rt : Runtime) (m : MirrorState) (pure : Bool)
    (noLdb : ¬ "ldb".toList <:+: dir) (small : number.toNat < 2 ^ 31) :
    isMirroredWriteName rt m (tableFileName dir number) pure = some (isMirroredWrite rt m number pure) := by
  have read := atoi_substr_tableFileName dir number noLdb
  have fits : min (number.toNat : Int) (2 ^ 63 - 1) = number.toNat := by omega
  have back : UInt64.ofInt (Int32.ofInt (number.toNat : Int)).toInt = number := by
    rw [toInt_ofInt_of_lt small, uint64_ofInt_toNat]
  rw [fits, find_tableFileName dir number noLdb] at read
  obtain ⟨digits, cut, parsed⟩ := Option.map_eq_some_iff.mp read
  rw [isMirroredWriteName, find_tableFileName dir number noLdb]
  dsimp only
  rw [cut, Option.map_some, parsed, back]
  unfold isMirroredWrite
  cases rt.hasSecondary <;> cases rt.fullMirror <;> simp

end TableNames

/-! ## The other names -/

section OtherNames

variable (dir : List Char) (number : UInt64)

/-- The names `LogFileName`, `DescriptorFileName`, `TempFileName`,
`CurrentFileName` and `InfoLogFileName` give under `dbname`. -/
def nonTableFileNames (dbname : List Char) (number : UInt64) : List (List Char) :=
  [logFileName dbname number, descriptorFileName dbname number, tempFileName dbname number,
    currentFileName dbname, infoLogFileName dbname]

theorem find_padDecimal_ldb (w n : Nat) (rest : List Char) :
    find (padDecimal w n ++ rest) "ldb".toList = (find rest "ldb".toList).map (· + (padDecimal w n).length) := by
  rw [ldb_toList, find_append_of_head_not_mem (not_mem_padDecimal (by decide) w n)]

theorem find_nonTableFileNames (noLdb : ¬ "ldb".toList <:+: dir) :
    ∀ fname ∈ nonTableFileNames dir number, find fname "ldb".toList = none := by
  have afterDir : ∀ tail, find tail "ldb".toList = none → find (dir ++ '/' :: tail) "ldb".toList = none :=
    fun tail absent => by rw [find_append_sep (by decide) noLdb, absent, Option.map_none]
  have manifest : find ("MANIFEST-".toList ++ padDecimal 6 number.toNat) "ldb".toList = none := by
    rw [ldb_toList, find_append_of_head_not_mem (by decide), ← ldb_toList,
      ← List.append_nil (padDecimal 6 number.toNat), find_padDecimal_ldb]
    rfl
  simp only [nonTableFileNames, List.mem_cons, List.not_mem_nil, or_false]
  rintro fname (rfl | rfl | rfl | rfl | rfl) <;> apply afterDir
  · rw [find_padDecimal_ldb]
    rfl
  · exact manifest
  · rw [find_padDecimal_ldb]
    rfl
  · decide
  · decide

/-- Under a directory without `ldb`, `is_mirrored_write` never takes another
name for a table. -/
theorem isMirroredWriteName_nonTable (rt : Runtime) (m : MirrorState) (pure : Bool)
    (noLdb : ¬ "ldb".toList <:+: dir) :
    ∀ fname ∈ nonTableFileNames dir number, isMirroredWriteName rt m fname pure = some false := by
  intro fname named
  rw [isMirroredWriteName, find_nonTableFileNames dir number noLdb fname named]

/-- With full mirroring, every other name under a directory holding `ldb` is
a mirrored write. -/
theorem isMirroredWriteName_fullMirror (rt : Runtime) (m : MirrorState) (pure : Bool)
    (hasLdb : "ldb".toList <:+: dir) (secondary : rt.hasSecondary) (full : rt.fullMirror) :
    ∀ fname ∈ nonTableFileNames dir number, isMirroredWriteName rt m fname pure = some true := by
  obtain ⟨p, found⟩ := Option.isSome_iff_exists.mp (find_isSome_of_occurs hasLdb)
  -- each name starts with the directory, so the search stops in it
  have inDir : ∀ tail, isMirroredWriteName rt m (dir ++ tail) pure = some true := by
    intro tail
    rw [isMirroredWriteName, find_append_left found]
    simp [secondary, full]
  simp only [nonTableFileNames, List.mem_cons, List.not_mem_nil, or_false]
  rintro fname (rfl | rfl | rfl | rfl | rfl) <;> exact inDir _

end OtherNames

/-! ## `relocate_file` against `ParseFileName` -/

section Relocation

variable (dir : List Char) (number : UInt64)

theorem ldbDot_toList : ".ldb".toList = ['.', 'l', 'd', 'b'] := rfl

/-- Every table name holds `.ldb`, so `relocate_file` leaves it in place, and
`ParseFileName` takes it for a table. -/
theorem fileHasSuffix_tableFileName :
    fileHasSuffix (tableFileName dir number) ".ldb".toList = true ∧
      parseFileName (baseName (tableFileName dir number)) = some (number, .kTableFile) := by
  have ending : ".ldb".toList <:+ tableFileName dir number :=
    ((List.suffix_append (padDecimal 6 number.toNat) ".ldb".toList).trans
      (List.suffix_cons '/' _)).trans (List.suffix_append dir _)
  refine ⟨find_isSome_of_occurs ending.isInfix, ?_⟩
  rw [tableFileName, parseFileName_makeFileName dir number _ (by decide)]
  rfl

theorem primaryToSecondaryFile_makeFileName (secondary suffix : List Char) (noSlash : '/' ∉ suffix)
    (short : suffix.length < 2 ^ 63) :
    primaryToSecondaryFile secondary (makeFileName dir number suffix) =
      some (secondary ++ '/' :: (padDecimal 6 number.toNat ++ '.' :: suffix)) := by
  have digits := length_padDecimal_le 6 number.toNat number.toNat_lt
  rw [primaryToSecondaryFile, findLastOf_makeFileName dir number suffix noSlash, Option.getD_some,
    substr_of_le _ (by simp [makeFileName]), makeFileName, List.drop_left' rfl,
    List.take_of_length_le (by simp [npos]; omega), Option.map_some]

/-- An `.sst` table under a directory without `.ldb` is a table to
`ParseFileName`, but not to `relocate_file`, which moves it to the secondary
store wherever metadata is kept there. -/
theorem relocateFile_sstTable (p : Placement) (moves : p.metaOnPrimary = false)
    (noLdb : ¬ ".ldb".toList <:+: dir) :
    parseFileName (baseName (sstTableFileName dir number)) = some (number, .kTableFile) ∧
      fileHasSuffix (sstTableFileName dir number) ".ldb".toList = false ∧
      relocateFile p (sstTableFileName dir number) =
        some (p.secondaryStoragePath ++ '/' :: (padDecimal 6 number.toNat ++ ".sst".toList)) := by
  have parsed : parseFileName (baseName (sstTableFileName dir number)) = some (number, .kTableFile) := by
    rw [sstTableFileName, parseFileName_makeFileName dir number _ (by decide)]
    rfl
  have notLdb : fileHasSuffix (sstTableFileName dir number) ".ldb".toList = false := by
    have inSuffix : find ['.', 's', 's', 't'] ['.', 'l', 'd', 'b'] = none := by decide
    rw [fileHasSuffix, sstTableFileName, makeFileName, find_append_sep (by decide) noLdb, ldbDot_toList,
      find_append_of_head_not_mem (not_mem_padDecimal (by decide) 6 _)]
    simp [inSuffix]
  have moved := primaryToSecondaryFile_makeFileName dir number p.secondaryStoragePath "sst".toList
    (by decide) (by decide)
  refine ⟨parsed, notLdb, ?_⟩
  -- both the log branch and the metadata branch move the file the same way
  rw [relocateFile, notLdb, moves]
  simp only [Bool.false_eq_true, if_false, Bool.not_false, if_true, ite_self]
  exact moved

end Relocation

end HLsm
