import Mathlib

/-!
# `hlsm_param.h`, `hlsm_func.h`: the level layout and the run-time switches

The constants of `leveldb::config` and `hlsm::runtime`, the switches that
`hlsm::runtime::init` sets for each `DBMode`, the delta-level metadata kept for
every logical level, and the index arithmetic that places the pieces of a
logical level into the lazy version.

Every physical level `L` of the primary version belongs to the logical level
`L / 2` (the cursor splits a logical level `X` into `X.R = 2X` and
`X.L = 2X + 1`).  In the lazy version, logical level `X` owns the block
`[X * 25 - 23, X * 25 + 1]` of lazy levels: its NEW sub-level at `X * 25 + 1`
and its delta sub-levels `a = 1 .. 24` at `X * 25 + 1 - a`.

The production build compiles with `-DNDEBUG`: the `assert`s in these functions
are not evaluated, and the model does not evaluate them either; where an
assertion matters to a result it is stated as its own predicate.
-/

set_option autoImplicit false

namespace HLsm

/-! ## Constants -/

def kNumLevels : Nat := 16

def kL0CompactionTrigger : Nat := 4

def kL0StopWritesTrigger : Nat := 12

def kTargetFileSize : Nat := 2 * 1048576

/-- `leveldb::config::kL0_Size`, in MB. -/
def kL0Size : Nat := 10

def kLevelRatio : Nat := 10

def deltaLevelNum : Nat := 24

def kLogicalLevels : Nat := kNumLevels / 2

def kNumLazyLevels : Nat :=
  2 + (deltaLevelNum + 1) * (kLogicalLevels - 2) + deltaLevelNum + 2 + 4

theorem kLogicalLevels_eq : kLogicalLevels = 8 := rfl

theorem kNumLazyLevels_eq : kNumLazyLevels = 182 := rfl

/-! ## Modes and the switches `hlsm::runtime::init` sets -/

/-- `DBMode`'s `mode_t`. -/
inductive DBMode where
  | Default
  | FullMirror
  | PartialMirror
  | bLSM
  | PartialbLSM
  | hLSM
  | Unknown
  deriving DecidableEq, Repr

/-- The run-time switches read by the modelled functions: the globals of
`hlsm::runtime` and `hlsm::config`, and `leveldb::config::kMaxMemCompactLevel`,
which `init` also changes. -/
structure Runtime where
  mode : DBMode
  useCursorCompaction : Bool
  fullMirror : Bool
  mirrorStartLevel : Int
  topMirrorEndLevel : Int
  topPureMirrorEndLevel : Int
  twoPhaseEndLevel : Nat
  seqentialReadFromPrimary : Bool
  randomReadFromPrimary : Bool
  useOpqThread : Bool
  /-- `hlsm::config::secondary_storage_path != NULL`. -/
  hasSecondary : Bool
  kMaxMemCompactLevel : Nat
  kMinBytesPerSeek : Nat
  /-- `hlsm::config::kL0_StopWritesTrigger`; `0` defers to the leveldb value. -/
  configL0StopWritesTrigger : Nat
  /-- `hlsm::config::restrict_L0_score`; `0` leaves the level-0 score alone. -/
  restrictL0Score : ℚ
  /-- `hlsm::config::kMaxLevel`; a non-positive value turns the cap off. -/
  kMaxLevel : Int
  deriving DecidableEq, Repr

/-- The values the globals have before `init` runs (`db/hlsm_param.cc`), with
the secondary storage path given. -/
def Runtime.initial (mode : DBMode) (hasSecondary : Bool) : Runtime where
  mode := mode
  useCursorCompaction := false
  fullMirror := false
  mirrorStartLevel := 1028
  topMirrorEndLevel := -1
  topPureMirrorEndLevel := -1
  twoPhaseEndLevel := 0
  seqentialReadFromPrimary := true
  randomReadFromPrimary := true
  useOpqThread := false
  hasSecondary := hasSecondary
  kMaxMemCompactLevel := 2
  kMinBytesPerSeek := 16384
  configL0StopWritesTrigger := 0
  restrictL0Score := 0
  kMaxLevel := -1

/-- `hlsm::runtime::init`: `none` where it calls `exit` (an unknown mode, or a
mirroring mode without a secondary path). -/
def Runtime.init (mode : DBMode) (hasSecondary : Bool) : Option Runtime :=
  let r := Runtime.initial mode hasSecondary
  let finish (r : Runtime) : Runtime := { r with kMinBytesPerSeek := 1 }
  match mode with
  | .Default =>
      some (finish { r with
        kMaxMemCompactLevel := 0
        useCursorCompaction := false
        hasSecondary := false
        useOpqThread := true })
  | .FullMirror =>
      if hasSecondary then
        some (finish { r with
          fullMirror := true
          mirrorStartLevel := 0
          seqentialReadFromPrimary := false
          randomReadFromPrimary := true
          useOpqThread := true
          kMaxMemCompactLevel := 0 })
      else none
  | .PartialMirror =>
      if hasSecondary then
        some (finish { r with
          mirrorStartLevel := 3
          seqentialReadFromPrimary := true
          randomReadFromPrimary := true
          useOpqThread := true })
      else none
  | .bLSM =>
      some (finish { r with
        useCursorCompaction := true
        kMaxMemCompactLevel := 0 })
  | .PartialbLSM =>
      some (finish { r with
        mirrorStartLevel := 3
        seqentialReadFromPrimary := true
        randomReadFromPrimary := true
        useCursorCompaction := true
        useOpqThread := true
        kMaxMemCompactLevel := 0 })
  | .hLSM =>
      if hasSecondary then
        some (finish { r with
          topMirrorEndLevel := 1
          topPureMirrorEndLevel := 0
          useCursorCompaction := true
          seqentialReadFromPrimary := true
          randomReadFromPrimary := false
          useOpqThread := true
          twoPhaseEndLevel := 6
          mirrorStartLevel := 12
          kMaxMemCompactLevel := 0 })
      else none
  | .Unknown => none

/-- The hLSM run-time, as `init` leaves it. -/
def Runtime.hlsm : Runtime :=
  { Runtime.initial .hLSM true with
    topMirrorEndLevel := 1
    topPureMirrorEndLevel := 0
    useCursorCompaction := true
    seqentialReadFromPrimary := true
    randomReadFromPrimary := false
    useOpqThread := true
    twoPhaseEndLevel := 6
    mirrorStartLevel := 12
    kMaxMemCompactLevel := 0
    kMinBytesPerSeek := 1 }

/-- `KL0_STOP_WRITE_TRIGGER`. -/
def Runtime.l0StopWritesTrigger (rt : Runtime) : Nat :=
  if rt.configL0StopWritesTrigger > 0 then rt.configL0StopWritesTrigger
  else kL0StopWritesTrigger

def Runtime.readFromPrimary (rt : Runtime) (isSequential : Bool) : Bool :=
  if isSequential then rt.seqentialReadFromPrimary else rt.randomReadFromPrimary

def Runtime.isTrivialMove (rt : Runtime) (level : Nat) : Bool :=
  !rt.useCursorCompaction || level % 2 == 1

/-- `hlsm::cursor::is_whole_level_move`: level 0 always goes through a merge. -/
def Runtime.isWholeLevelMove (rt : Runtime) (level : Nat) : Bool :=
  rt.useCursorCompaction && level > 0 && level % 2 == 0

/-! ## Level sizes -/

/-- `hlsm::MaxBytesForLevel`, the budget of a level under the cursor: `X.L`
and `X.R` share the budget of their logical level. -/
def maxBytesForLevel : Nat → ℚ
  | 0 | 1 | 2 | 3 => (kL0Size : ℚ) * 1048576
  | level + 4 => kLevelRatio * maxBytesForLevel (level + 2)

/-- `MaxBytesForLevel` of `version_set.cc` (and `hlsm::DefaultMaxBytesForLevel`). -/
def defaultMaxBytesForLevel : Nat → ℚ
  | 0 | 1 => (kL0Size : ℚ) * 1048576
  | level + 2 => kLevelRatio * defaultMaxBytesForLevel (level + 1)

/-! ## Delta-level metadata -/

/-- `DeltaLevelMeta`: the delta sub-levels `start + 1 .. active` of a logical
level are in use, and those up to `clear` are to be cleared. -/
structure DeltaLevelMeta where
  start : UInt32
  clear : UInt32
  active : UInt32
  deriving DecidableEq, Repr

instance : Inhabited DeltaLevelMeta := ⟨⟨0, 0, 1⟩⟩

def DeltaLevelMeta.isValidDetlaMeta (dm : DeltaLevelMeta) : Bool :=
  dm.start ≤ 24 && dm.clear ≤ 24 && dm.active ≤ 24

/-- The `active++` with wrap-around shared by `AdvanceActiveDeltaLevel` and
`RollForwardDeltaLevels`, in `uint32_t` arithmetic. -/
def nextActive (active : UInt32) : UInt32 :=
  if active + 1 > 24 then 1 else active + 1

/-- `AdvanceActiveDeltaLevel` on one meta. -/
def DeltaLevelMeta.advanceActive (dm : DeltaLevelMeta) : DeltaLevelMeta :=
  { dm with active := nextActive dm.active }

/-- The condition `AdvanceActiveDeltaLevel` asserts. -/
def DeltaLevelMeta.advanceAssertHolds (dm : DeltaLevelMeta) : Prop :=
  dm.active ≠ dm.start

/-- `RollForwardDeltaLevels` on one meta. -/
def DeltaLevelMeta.rollForward (dm : DeltaLevelMeta) : DeltaLevelMeta :=
  ⟨dm.clear, dm.active, nextActive dm.active⟩

/-- `delta_meta_[kLogicalLevels]`. -/
abbrev DeltaMetas := Vector DeltaLevelMeta kLogicalLevels

def initialDeltaMetas : DeltaMetas := Vector.replicate kLogicalLevels default

/-- `delta_meta_[llevel]`. -/
def metaAt (metas : DeltaMetas) (llevel : Nat) : DeltaLevelMeta := metas.getD llevel default

/-- Update `delta_meta_[llevel]` in place. -/
def modifyMeta (metas : DeltaMetas) (llevel : Nat) (f : DeltaLevelMeta → DeltaLevelMeta) :
    DeltaMetas :=
  metas.setIfInBounds llevel (f (metaAt metas llevel))

theorem nextActive_pos_of_le (active : UInt32) (small : active ≤ 24) :
    1 ≤ nextActive active ∧ nextActive active ≤ 24 := by
  unfold nextActive
  split
  · decide
  · rename_i notOver
    have bound : active.toNat ≤ 24 := UInt32.le_iff_toNat_le.mp small
    simp only [UInt32.le_iff_toNat_le, UInt32.lt_iff_toNat_lt, UInt32.toNat_add] at notOver ⊢
    simp at notOver ⊢
    omega

/-! ## Index arithmetic of `hlsm_func.h` -/

def getLogicalLevel (level : Nat) : Nat := level / 2

/-- `get_hlsm_new_level`: the NEW sub-level of the logical level. -/
def getHlsmNewLevel (level : Nat) : Nat :=
  getLogicalLevel level * (deltaLevelNum + 1) + 1

/-- `get_active_delta_level`, in `uint32_t` arithmetic as the source computes
it (`int - uint32_t`). -/
def getActiveDeltaLevel (metas : DeltaMetas) (llevel : Nat) : UInt32 :=
  UInt32.ofNat (llevel * (deltaLevelNum + 1) + 1) - (metaAt metas llevel).active

/-- `get_pure_mirror_level`: the lazy level that mirrors a physical level past
the two-phase levels. -/
def getPureMirrorLevel (rt : Runtime) (level : Nat) : Nat :=
  let lnum := rt.twoPhaseEndLevel + 1
  getHlsmNewLevel (2 * lnum - 1) + level - 2 * lnum

/-- The body of `get_obsolete_delta_levels`'s loop, run at most `fuel` times:
`none` when the loop has not stopped by then. -/
def obsoleteDeltaLevelsLoop (llevel : Nat) (clear : UInt32) :
    Nat → UInt32 → Option (List UInt32)
  | 0, start => if start = clear then some [] else none
  | fuel + 1, start =>
      if start = clear then some []
      else
        let start' := nextActive start
        (obsoleteDeltaLevelsLoop llevel clear fuel start').map
          ((UInt32.ofNat (llevel * (deltaLevelNum + 1) + 1) - start') :: ·)

/-- `get_obsolete_delta_levels`: the delta sub-levels `start + 1 .. clear`,
going round the ring.  After its first step the loop variable stays in
`1 .. 24`, so a loop that has not stopped after `delta_level_num + 1` steps never
stops: `none` stands for the loop that does not return. -/
def getObsoleteDeltaLevels (metas : DeltaMetas) (llevel : Nat) : Option (List UInt32) :=
  let dm := metaAt metas llevel
  obsoleteDeltaLevelsLoop llevel dm.clear (deltaLevelNum + 1) dm.start

end HLsm
