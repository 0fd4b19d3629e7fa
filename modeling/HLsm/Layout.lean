import HLsm.Params

/-! # The lazy-level layout for every `delta_level_num`

`hlsm_param.h` fixes `delta_level_num = 24` and sizes the lazy version from
it; `hlsm::runtime::init` sets `two_phase_end_level = 6`.  Here the formulas
of `hlsm_func.h` take `D = delta_level_num` as a parameter, and the functions
of `Params` are these formulas at `D = 24` (`getHlsmNewLevel_eq`,
`getPureMirrorLevel_eq`, `toNat_getActiveDeltaLevel`,
`getObsoleteDeltaLevels_eq`).

A `LayoutParams` is a `D ≥ 1` with a `T = two_phase_end_level` such that
`1 ≤ T` and `2T + 2 ≤ kNumLevels`.  `LazySlot` names every place the layout
uses: `L0.R`, `L0.L`, the delta sub-levels `1 .. D` of logical levels
`1 .. T`, the NEW sub-levels of `1 .. T - 1`, and the pure-mirror levels from
`2T + 2` on.

`lazyLayout_sound`: the used places get pairwise different indices, all below
`kNumLazyLevels`; the delta sub-levels of `X` lie above the NEW sub-level of
`X - 1` and below that of `X`, which no pure-mirror level is below; and
`get_obsolete_delta_levels` returns, each once, the sub-levels of the ring
interval `(start, clear]` of `1 .. D`.
-/

set_option autoImplicit false

namespace HLsm

/-! ## The formulas for any `delta_level_num` -/

def numLazyLevelsFor (D : Nat) : Nat :=
  2 + (D + 1) * (kLogicalLevels - 2) + D + 2 + 4

def hlsmNewLevelFor (D level : Nat) : Nat :=
  getLogicalLevel level * (D + 1) + 1

/-- `get_active_delta_level` where `meta[llevel].active = a`. -/
def activeDeltaLevelFor (D llevel a : Nat) : Nat :=
  llevel * (D + 1) + 1 - a

def pureMirrorLevelFor (D T level : Nat) : Nat :=
  let lnum := T + 1
  hlsmNewLevelFor D (2 * lnum - 1) + level - 2 * lnum

/-- `start = start + 1; if (start > delta_level_num) start = 1;` -/
def nextDeltaFor (D start : Nat) : Nat :=
  if start + 1 > D then 1 else start + 1

def obsoleteLoopFor (D llevel clear : Nat) : Nat → Nat → Option (List Nat)
  | 0, start => if start = clear then some [] else none
  | fuel + 1, start =>
      if start = clear then some []
      else
        let start' := nextDeltaFor D start
        (obsoleteLoopFor D llevel clear fuel start').map (activeDeltaLevelFor D llevel start' :: ·)

def obsoleteDeltaLevelsFor (D llevel start clear : Nat) : Option (List Nat) :=
  obsoleteLoopFor D llevel clear (D + 1) start

@[simp] theorem hlsmNewLevelFor_double (D X : Nat) : hlsmNewLevelFor D (2 * X) = X * (D + 1) + 1 := by
  simp [hlsmNewLevelFor, getLogicalLevel]

theorem pureMirrorLevelFor_eq (D T level : Nat) :
    pureMirrorLevelFor D T level = T * (D + 1) + 1 + level - 2 * (T + 1) := by
  have logical : getLogicalLevel (2 * (T + 1) - 1) = T := by
    simp only [getLogicalLevel]
    omega
  simp [pureMirrorLevelFor, hlsmNewLevelFor, logical]

/-! ## At `delta_level_num = 24` they are the functions of `Params` -/

theorem numLazyLevelsFor_eq : numLazyLevelsFor deltaLevelNum = kNumLazyLevels := rfl

theorem getHlsmNewLevel_eq (level : Nat) : getHlsmNewLevel level = hlsmNewLevelFor deltaLevelNum level :=
  rfl

theorem getPureMirrorLevel_eq (rt : Runtime) (level : Nat) :
    getPureMirrorLevel rt level = pureMirrorLevelFor deltaLevelNum rt.twoPhaseEndLevel level :=
  rfl

theorem toNat_sub_active {llevel : Nat} (lo : 1 ≤ llevel) (hi : llevel < kLogicalLevels) {a : UInt32}
    (small : a ≤ 24) :
    (UInt32.ofNat (llevel * (deltaLevelNum + 1) + 1) - a).toNat =
      activeDeltaLevelFor deltaLevelNum llevel a.toNat := by
  have bound : a.toNat ≤ 24 := UInt32.le_iff_toNat_le.mp small
  have fits : llevel * (deltaLevelNum + 1) + 1 < 4294967296 := by
    simp only [kLogicalLevels, kNumLevels, deltaLevelNum] at hi ⊢
    omega
  have ofNat : (UInt32.ofNat (llevel * (deltaLevelNum + 1) + 1)).toNat = llevel * (deltaLevelNum + 1) + 1 := by
    simp [Nat.mod_eq_of_lt fits]
  rw [UInt32.toNat_sub_of_le _ _ (by rw [UInt32.le_iff_toNat_le, ofNat]; simp only [deltaLevelNum]; omega),
    ofNat, activeDeltaLevelFor]

theorem toNat_getActiveDeltaLevel (metas : DeltaMetas) {llevel : Nat} (lo : 1 ≤ llevel)
    (hi : llevel < kLogicalLevels) (small : (metaAt metas llevel).active ≤ 24) :
    (getActiveDeltaLevel metas llevel).toNat =
      activeDeltaLevelFor deltaLevelNum llevel (metaAt metas llevel).active.toNat :=
  toNat_sub_active lo hi small

theorem toNat_nextActive {s : UInt32} (small : s ≤ 24) :
    (nextActive s).toNat = nextDeltaFor deltaLevelNum s.toNat := by
  have bound : s.toNat ≤ 24 := UInt32.le_iff_toNat_le.mp small
  have noWrap : (s + 1).toNat = s.toNat + 1 := by
    rw [UInt32.toNat_add]
    simp only [UInt32.toNat_one]
    omega
  have wrapsIff : s + 1 > 24 ↔ s.toNat + 1 > deltaLevelNum := by
    rw [GT.gt, UInt32.lt_iff_toNat_lt, noWrap]
    rfl
  unfold nextActive nextDeltaFor
  by_cases wraps : s.toNat + 1 > deltaLevelNum
  · rw [if_pos (wrapsIff.mpr wraps), if_pos wraps]
    rfl
  · rw [if_neg (mt wrapsIff.mp wraps), if_neg wraps, noWrap]

theorem obsoleteDeltaLevelsLoop_eq {llevel : Nat} (lo : 1 ≤ llevel) (hi : llevel < kLogicalLevels)
    (clear : UInt32) :
    ∀ (fuel : Nat) (start : UInt32), start ≤ 24 →
      (obsoleteDeltaLevelsLoop llevel clear fuel start).map (List.map UInt32.toNat) =
        obsoleteLoopFor deltaLevelNum llevel clear.toNat fuel start.toNat := by
  intro fuel
  induction fuel with
  | zero =>
      intro start _
      by_cases same : start = clear
      · simp [obsoleteDeltaLevelsLoop, obsoleteLoopFor, same]
      · have differ : start.toNat ≠ clear.toNat := fun eq => same (UInt32.toNat_inj.mp eq)
        simp [obsoleteDeltaLevelsLoop, obsoleteLoopFor, same, differ]
  | succ fuel ih =>
      intro start small
      by_cases same : start = clear
      · simp [obsoleteDeltaLevelsLoop, obsoleteLoopFor, same]
      · have differ : start.toNat ≠ clear.toNat := fun eq => same (UInt32.toNat_inj.mp eq)
        have nextSmall : nextActive start ≤ 24 := (nextActive_pos_of_le start small).2
        have rest := ih (nextActive start) nextSmall
        rw [toNat_nextActive small] at rest
        simp only [obsoleteDeltaLevelsLoop, obsoleteLoopFor, same, differ, if_false, Option.map_map]
        rw [← rest, Option.map_map]
        congr 1
        funext levels
        simp only [Function.comp_apply, List.map_cons, toNat_sub_active lo hi nextSmall,
          toNat_nextActive small]

theorem getObsoleteDeltaLevels_eq (metas : DeltaMetas) {llevel : Nat} (lo : 1 ≤ llevel)
    (hi : llevel < kLogicalLevels) (small : (metaAt metas llevel).start ≤ 24) :
    (getObsoleteDeltaLevels metas llevel).map (List.map UInt32.toNat) =
      obsoleteDeltaLevelsFor deltaLevelNum llevel (metaAt metas llevel).start.toNat
        (metaAt metas llevel).clear.toNat :=
  obsoleteDeltaLevelsLoop_eq lo hi _ _ _ small

/-! ## The places of the layout -/

/-- A configuration the layout is built for. -/
structure LayoutParams where
  deltaLevelNum : Nat
  twoPhaseEndLevel : Nat
  deltaLevelNum_pos : 1 ≤ deltaLevelNum
  twoPhaseEndLevel_pos : 1 ≤ twoPhaseEndLevel
  twoPhaseEndLevel_fits : 2 * twoPhaseEndLevel + 2 ≤ kNumLevels

def LayoutParams.hlsm : LayoutParams :=
  ⟨HLsm.deltaLevelNum, Runtime.hlsm.twoPhaseEndLevel, by decide, by decide, by decide⟩

inductive LazySlot where
  | l0R
  | l0L
  | delta (llevel sub : Nat)
  | new (llevel : Nat)
  | pureMirror (level : Nat)
  deriving DecidableEq, Repr

namespace LazySlot

variable (p : LayoutParams)

def Used : LazySlot → Prop
  | l0R => True
  | l0L => True
  | delta X a => 1 ≤ X ∧ X ≤ p.twoPhaseEndLevel ∧ 1 ≤ a ∧ a ≤ p.deltaLevelNum
  | new X => 1 ≤ X ∧ X < p.twoPhaseEndLevel
  | pureMirror L => 2 * p.twoPhaseEndLevel + 2 ≤ L ∧ L < kNumLevels

def index : LazySlot → Nat
  | l0R => 0
  | l0L => 1
  | delta X a => activeDeltaLevelFor p.deltaLevelNum X a
  | new X => hlsmNewLevelFor p.deltaLevelNum (2 * X)
  | pureMirror L => pureMirrorLevelFor p.deltaLevelNum p.twoPhaseEndLevel L

theorem index_hlsm_new (X : Nat) : (new X).index LayoutParams.hlsm = getHlsmNewLevel (2 * X) := rfl

theorem index_hlsm_pureMirror (L : Nat) :
    (pureMirror L).index LayoutParams.hlsm = getPureMirrorLevel Runtime.hlsm L := rfl

theorem blocks_apart (B X Y : Nat) : X = Y ∨ X * B + B ≤ Y * B ∨ Y * B + B ≤ X * B := by
  rcases Nat.lt_trichotomy X Y with lt | same | gt
  · exact .inr (.inl (by simpa [Nat.succ_mul] using Nat.mul_le_mul_right B lt))
  · exact .inl same
  · exact .inr (.inr (by simpa [Nat.succ_mul] using Nat.mul_le_mul_right B gt))

variable {p}

@[simp] theorem index_l0R : l0R.index p = 0 := rfl

@[simp] theorem index_l0L : l0L.index p = 1 := rfl

theorem block_ge {B X : Nat} (lo : 1 ≤ X) : B ≤ X * B := by
  simpa using Nat.mul_le_mul_right B lo

theorem index_middle {s : LazySlot} (used : s.Used p) (middle : ∃ X a, s = delta X a ∨ s = new X) :
    2 ≤ s.index p ∧ s.index p ≤ p.twoPhaseEndLevel * (p.deltaLevelNum + 1) := by
  obtain ⟨X, a, rfl | rfl⟩ := middle
  · obtain ⟨lo, hi, aLo, aHi⟩ := used
    have first : 1 * (p.deltaLevelNum + 1) ≤ X * (p.deltaLevelNum + 1) := Nat.mul_le_mul_right _ lo
    have last : X * (p.deltaLevelNum + 1) ≤ p.twoPhaseEndLevel * (p.deltaLevelNum + 1) :=
      Nat.mul_le_mul_right _ hi
    simp only [index, activeDeltaLevelFor]
    omega
  · obtain ⟨lo, hi⟩ := used
    have first : 1 * (p.deltaLevelNum + 1) ≤ X * (p.deltaLevelNum + 1) := Nat.mul_le_mul_right _ lo
    have last : X * (p.deltaLevelNum + 1) + (p.deltaLevelNum + 1) ≤
        p.twoPhaseEndLevel * (p.deltaLevelNum + 1) := by
      simpa [Nat.succ_mul] using Nat.mul_le_mul_right (p.deltaLevelNum + 1) hi
    simp only [index, hlsmNewLevelFor_double]
    omega

theorem index_pureMirror_ge {L : Nat} (used : (pureMirror L).Used p) :
    p.twoPhaseEndLevel * (p.deltaLevelNum + 1) + 1 ≤ (pureMirror L).index p := by
  obtain ⟨lo, _⟩ := used
  rw [index, pureMirrorLevelFor_eq]
  omega

theorem delta_ne_new {X a Y : Nat} (usedDelta : (delta X a).Used p) :
    (delta X a).index p ≠ (new Y).index p := by
  obtain ⟨lo, _, aLo, aHi⟩ := usedDelta
  have first := block_ge (B := p.deltaLevelNum + 1) lo
  simp only [index, activeDeltaLevelFor, hlsmNewLevelFor_double]
  rcases blocks_apart (p.deltaLevelNum + 1) X Y with rfl | apart | apart <;> omega

theorem delta_injective {X a Y b : Nat} (usedX : (delta X a).Used p) (usedY : (delta Y b).Used p)
    (same : (delta X a).index p = (delta Y b).index p) : X = Y ∧ a = b := by
  obtain ⟨lo, _, aLo, aHi⟩ := usedX
  obtain ⟨lo', _, bLo, bHi⟩ := usedY
  have firstX := block_ge (B := p.deltaLevelNum + 1) lo
  have firstY := block_ge (B := p.deltaLevelNum + 1) lo'
  simp only [index, activeDeltaLevelFor] at same
  rcases blocks_apart (p.deltaLevelNum + 1) X Y with rfl | apart | apart
  · exact ⟨rfl, by omega⟩
  · omega
  · omega

theorem new_injective {X Y : Nat} (same : (new X).index p = (new Y).index p) : X = Y := by
  simp only [index, hlsmNewLevelFor_double, Nat.add_right_cancel_iff] at same
  exact Nat.eq_of_mul_eq_mul_right (Nat.succ_pos _) same

theorem index_injective {s t : LazySlot} (usedS : s.Used p) (usedT : t.Used p)
    (same : s.index p = t.index p) : s = t := by
  -- the bands `0`, `1`, the middle band and the pure-mirror band are apart
  have middle := fun {u : LazySlot} (used : u.Used p) (X a : Nat) (isMiddle : u = delta X a ∨ u = new X) =>
    index_middle used ⟨X, a, isMiddle⟩
  cases s with
  | l0R =>
      cases t with
      | l0R => rfl
      | l0L => simp at same
      | delta Y b => have := middle usedT Y b (.inl rfl); simp only [index_l0R] at same; omega
      | new Y => have := middle usedT Y 0 (.inr rfl); simp only [index_l0R] at same; omega
      | pureMirror L => have := index_pureMirror_ge usedT; simp only [index_l0R] at same; omega
  | l0L =>
      cases t with
      | l0R => simp at same
      | l0L => rfl
      | delta Y b => have := middle usedT Y b (.inl rfl); simp only [index_l0L] at same; omega
      | new Y => have := middle usedT Y 0 (.inr rfl); simp only [index_l0L] at same; omega
      | pureMirror L =>
          have := index_pureMirror_ge usedT
          have := block_ge (B := p.deltaLevelNum + 1) p.twoPhaseEndLevel_pos
          simp only [index_l0L] at same
          omega
  | delta X a =>
      have here := middle usedS X a (.inl rfl)
      cases t with
      | l0R => simp only [index_l0R] at same; omega
      | l0L => simp only [index_l0L] at same; omega
      | delta Y b =>
          obtain ⟨rfl, rfl⟩ := delta_injective usedS usedT same
          rfl
      | new Y => exact absurd same (delta_ne_new usedS)
      | pureMirror L => have := index_pureMirror_ge usedT; omega
  | new X =>
      have here := middle usedS X 0 (.inr rfl)
      cases t with
      | l0R => simp only [index_l0R] at same; omega
      | l0L => simp only [index_l0L] at same; omega
      | delta Y b => exact absurd same.symm (delta_ne_new usedT)
      | new Y => rw [new_injective same]
      | pureMirror L => have := index_pureMirror_ge usedT; omega
  | pureMirror L =>
      have here := index_pureMirror_ge usedS
      cases t with
      | l0R => simp only [index_l0R] at same; omega
      | l0L =>
          have := block_ge (B := p.deltaLevelNum + 1) p.twoPhaseEndLevel_pos
          simp only [index_l0L] at same
          omega
      | delta Y b => have := middle usedT Y b (.inl rfl); omega
      | new Y => have := middle usedT Y 0 (.inr rfl); omega
      | pureMirror M =>
          simp only [index, pureMirrorLevelFor_eq] at same
          obtain ⟨lo, _⟩ := usedS
          obtain ⟨lo', _⟩ := usedT
          rw [show L = M by omega]

theorem index_lt {s : LazySlot} (used : s.Used p) : s.index p < numLazyLevelsFor p.deltaLevelNum := by
  have fits : 2 * p.twoPhaseEndLevel + 2 ≤ 16 := p.twoPhaseEndLevel_fits
  have logical : kLogicalLevels = 8 := rfl
  -- the last two-phase level ends the middle band, at most seven blocks in
  have sevenBlocks : p.twoPhaseEndLevel * (p.deltaLevelNum + 1) +
      (7 - p.twoPhaseEndLevel) * (p.deltaLevelNum + 1) = 7 * (p.deltaLevelNum + 1) := by
    rw [← Nat.add_mul]
    congr 1
    omega
  have spare : (7 - p.twoPhaseEndLevel) * 2 ≤ (7 - p.twoPhaseEndLevel) * (p.deltaLevelNum + 1) :=
    Nat.mul_le_mul_left _ (by have := p.deltaLevelNum_pos; omega)
  simp only [numLazyLevelsFor, logical]
  cases s with
  | l0R => simp
  | l0L => simp
  | delta X a =>
      have := (index_middle used ⟨X, a, .inl rfl⟩).2
      omega
  | new X =>
      have := (index_middle used ⟨X, 0, .inr rfl⟩).2
      omega
  | pureMirror L =>
      obtain ⟨_, below⟩ := used
      have levels : kNumLevels = 16 := rfl
      rw [index, pureMirrorLevelFor_eq]
      omega

theorem delta_between {X a : Nat} (used : (delta X a).Used p) :
    (if X = 1 then 1 else hlsmNewLevelFor p.deltaLevelNum (2 * (X - 1))) < (delta X a).index p ∧
      (delta X a).index p < hlsmNewLevelFor p.deltaLevelNum (2 * X) ∧
      ∀ L, (pureMirror L).Used p → hlsmNewLevelFor p.deltaLevelNum (2 * X) ≤ (pureMirror L).index p := by
  obtain ⟨lo, hi, aLo, aHi⟩ := used
  have previous : (X - 1) * (p.deltaLevelNum + 1) + (p.deltaLevelNum + 1) = X * (p.deltaLevelNum + 1) := by
    rw [← Nat.succ_mul]
    congr 1
    omega
  have last : X * (p.deltaLevelNum + 1) ≤ p.twoPhaseEndLevel * (p.deltaLevelNum + 1) :=
    Nat.mul_le_mul_right _ hi
  refine ⟨?_, ?_, ?_⟩
  · simp only [index, activeDeltaLevelFor, hlsmNewLevelFor_double]
    split <;> omega
  · simp only [index, activeDeltaLevelFor, hlsmNewLevelFor_double]
    omega
  · intro L usedL
    have := index_pureMirror_ge usedL
    simp only [hlsmNewLevelFor_double]
    omega

end LazySlot

/-! ## `get_obsolete_delta_levels` walks the ring interval `(start, clear]` -/

/-- How many sub-levels the ring interval `(start, clear]` of `1 .. D` holds. -/
def ringSteps (D start clear : Nat) : Nat :=
  if start = clear then 0 else if start < clear then clear - start else D - start + clear

/-- The ring interval `(start, clear]` of `1 .. D`, from `start + 1` on. -/
def ringInterval (D start clear : Nat) : List Nat :=
  (List.range (ringSteps D start clear)).map fun i => (start + i) % D + 1

/-- `j` lies in the ring interval `(start, clear]`. -/
def InRing (start clear j : Nat) : Prop :=
  if start < clear then start < j ∧ j ≤ clear
  else if clear < start then start < j ∨ j ≤ clear
  else False

/-- The metas the loop is run on: `start` in `0 .. D`, and `clear` in `1 .. D`
unless it is `start`. -/
def RingBounds (D start clear : Nat) : Prop :=
  start ≤ D ∧ (1 ≤ clear ∧ clear ≤ D ∨ start = clear)

section Ring

variable {D start clear : Nat}

theorem nextDeltaFor_eq (pos : 1 ≤ D) (small : start ≤ D) : nextDeltaFor D start = start % D + 1 := by
  unfold nextDeltaFor
  by_cases last : start = D
  · subst last
    simp
  · rw [if_neg (by omega), Nat.mod_eq_of_lt (by omega)]

theorem ringSteps_le (bounds : RingBounds D start clear) : ringSteps D start clear ≤ D := by
  unfold ringSteps
  split_ifs <;> rcases bounds with ⟨_, ⟨_, _⟩ | _⟩ <;> omega

theorem ringSteps_next (pos : 1 ≤ D) (bounds : RingBounds D start clear) (differ : start ≠ clear) :
    ringSteps D (nextDeltaFor D start) clear + 1 = ringSteps D start clear ∧
      RingBounds D (nextDeltaFor D start) clear := by
  obtain ⟨small, ⟨clearLo, clearHi⟩ | same⟩ := bounds
  · unfold ringSteps nextDeltaFor
    constructor
    · split_ifs <;> omega
    · exact ⟨by split_ifs <;> omega, .inl ⟨clearLo, clearHi⟩⟩
  · exact absurd same differ

theorem eq_of_ringSteps_eq_zero (bounds : RingBounds D start clear) (zero : ringSteps D start clear = 0) :
    start = clear := by
  unfold ringSteps at zero
  split_ifs at zero <;> rcases bounds with ⟨_, ⟨_, _⟩ | _⟩ <;> omega

theorem ringInterval_cons (pos : 1 ≤ D) (small : start ≤ D) {k : Nat}
    (steps : ringSteps D start clear = k + 1) (stepsNext : ringSteps D (nextDeltaFor D start) clear = k) :
    ringInterval D start clear = nextDeltaFor D start :: ringInterval D (nextDeltaFor D start) clear := by
  rw [ringInterval, ringInterval, steps, stepsNext, List.range_succ_eq_map, List.map_cons, List.map_map,
    nextDeltaFor_eq pos small, Nat.add_zero]
  congr 1
  apply List.map_congr_left
  intro i _
  -- both sides are `start + 1 + i` reduced modulo `D`
  have shift : (start % D + 1 + i) % D = (start + (i + 1)) % D := by
    rw [Nat.add_assoc, Nat.mod_add_mod, Nat.add_comm 1 i]
  simp only [Function.comp_apply, shift]

theorem obsoleteLoopFor_ring (pos : 1 ≤ D) (X : Nat) :
    ∀ (fuel start : Nat), RingBounds D start clear → ringSteps D start clear ≤ fuel →
      obsoleteLoopFor D X clear fuel start =
        some ((ringInterval D start clear).map (activeDeltaLevelFor D X)) := by
  intro fuel
  induction fuel with
  | zero =>
      intro start bounds enough
      have same := eq_of_ringSteps_eq_zero bounds (by omega)
      simp [obsoleteLoopFor, ringInterval, ringSteps, same]
  | succ fuel ih =>
      intro start bounds enough
      by_cases same : start = clear
      · simp [obsoleteLoopFor, ringInterval, ringSteps, same]
      · obtain ⟨fewer, nextBounds⟩ := ringSteps_next pos bounds same
        rw [obsoleteLoopFor, if_neg same]
        dsimp only
        rw [ih _ nextBounds (by omega), ringInterval_cons pos bounds.1 fewer.symm rfl]
        rfl

theorem obsoleteDeltaLevelsFor_ring (pos : 1 ≤ D) (X : Nat) (bounds : RingBounds D start clear) :
    obsoleteDeltaLevelsFor D X start clear =
      some ((ringInterval D start clear).map (activeDeltaLevelFor D X)) :=
  obsoleteLoopFor_ring pos X (D + 1) start bounds (by have := ringSteps_le bounds; omega)

theorem mod_eq_sub_of_lt_double {n : Nat} (above : D ≤ n) (below : n < 2 * D) : n % D = n - D := by
  rw [Nat.mod_eq_sub_mod above, Nat.mod_eq_of_lt (by omega)]

theorem mem_ringInterval (bounds : RingBounds D start clear) (j : Nat) :
    j ∈ ringInterval D start clear ↔ 1 ≤ j ∧ j ≤ D ∧ InRing start clear j := by
  obtain ⟨small, ⟨clearLo, clearHi⟩ | same⟩ := bounds
  · simp only [ringInterval, ringSteps, InRing, List.mem_map, List.mem_range]
    rcases Nat.lt_trichotomy start clear with lt | same | gt
    · simp only [Nat.ne_of_lt lt, lt, if_false, if_true]
      constructor
      · rintro ⟨i, below, rfl⟩
        rw [Nat.mod_eq_of_lt (by omega)]
        omega
      · rintro ⟨jLo, _, above, atMost⟩
        exact ⟨j - start - 1, by omega, by rw [Nat.mod_eq_of_lt (by omega)]; omega⟩
    · simp [same]
    · simp only [Nat.ne_of_gt gt, Nat.not_lt.mpr gt.le, gt, if_false, if_true]
      constructor
      · rintro ⟨i, below, rfl⟩
        by_cases wraps : D ≤ start + i
        · rw [mod_eq_sub_of_lt_double wraps (by omega)]
          omega
        · rw [Nat.mod_eq_of_lt (by omega)]
          omega
      · rintro ⟨jLo, jHi, above | atMost⟩
        · exact ⟨j - start - 1, by omega, by rw [Nat.mod_eq_of_lt (by omega)]; omega⟩
        · exact ⟨D - start + j - 1, by omega, by rw [mod_eq_sub_of_lt_double (by omega) (by omega)]; omega⟩
  · subst same
    simp [ringInterval, ringSteps, InRing]

theorem ringInterval_nodup (bounds : RingBounds D start clear) :
    (ringInterval D start clear).Nodup := by
  have steps := ringSteps_le bounds
  apply List.Nodup.map_on _ List.nodup_range
  intro i iMem i' i'Mem same
  simp only [List.mem_range] at iMem i'Mem
  have cong : start + i ≡ start + i' [MOD D] := Nat.add_right_cancel same
  have back := Nat.ModEq.add_left_cancel' start cong
  rwa [Nat.ModEq, Nat.mod_eq_of_lt (by omega), Nat.mod_eq_of_lt (by omega)] at back

end Ring

theorem obsoleteDeltaLevelsFor_spec (p : LayoutParams) {X start clear : Nat} (lo : 1 ≤ X)
    (bounds : RingBounds p.deltaLevelNum start clear) :
    ∃ levels, obsoleteDeltaLevelsFor p.deltaLevelNum X start clear = some levels ∧ levels.Nodup ∧
      ∀ level, level ∈ levels ↔
        ∃ a, 1 ≤ a ∧ a ≤ p.deltaLevelNum ∧ InRing start clear a ∧ (LazySlot.delta X a).index p = level := by
  have block := LazySlot.block_ge (B := p.deltaLevelNum + 1) lo
  refine ⟨_, obsoleteDeltaLevelsFor_ring p.deltaLevelNum_pos X bounds, ?_, ?_⟩
  · -- sub-levels `1 .. D` of one logical level get different lazy levels
    apply List.Nodup.map_on _ (ringInterval_nodup bounds)
    intro a aMem b bMem same
    have aIn := (mem_ringInterval bounds a).mp aMem
    have bIn := (mem_ringInterval bounds b).mp bMem
    simp only [activeDeltaLevelFor] at same
    omega
  · intro level
    simp only [List.mem_map, mem_ringInterval bounds, LazySlot.index]
    constructor
    · rintro ⟨a, ⟨aLo, aHi, inRing⟩, rfl⟩
      exact ⟨a, aLo, aHi, inRing, rfl⟩
    · rintro ⟨a, aLo, aHi, inRing, rfl⟩
      exact ⟨a, ⟨aLo, aHi, inRing⟩, rfl⟩

/-- The lazy-level layout of every configuration: the places it uses get
different indices, all below `kNumLazyLevels`; within a logical level the delta
sub-levels lie between the NEW sub-levels of the level before and of the level
itself, and the pure-mirror levels above; and `get_obsolete_delta_levels`
returns, each once, the delta sub-levels of the ring interval `(start, clear]`. -/
theorem lazyLayout_sound (p : LayoutParams) :
    (∀ s t : LazySlot, s.Used p → t.Used p → s.index p = t.index p → s = t) ∧
    (∀ s : LazySlot, s.Used p → s.index p < numLazyLevelsFor p.deltaLevelNum) ∧
    (∀ X a, (LazySlot.delta X a).Used p →
      (if X = 1 then 1 else hlsmNewLevelFor p.deltaLevelNum (2 * (X - 1))) < (LazySlot.delta X a).index p ∧
      (LazySlot.delta X a).index p < hlsmNewLevelFor p.deltaLevelNum (2 * X) ∧
      ∀ L, (LazySlot.pureMirror L).Used p →
        hlsmNewLevelFor p.deltaLevelNum (2 * X) ≤ (LazySlot.pureMirror L).index p) ∧
    (∀ X start clear, 1 ≤ X → RingBounds p.deltaLevelNum start clear →
      ∃ levels, obsoleteDeltaLevelsFor p.deltaLevelNum X start clear = some levels ∧ levels.Nodup ∧
        ∀ level, level ∈ levels ↔
          ∃ a, 1 ≤ a ∧ a ≤ p.deltaLevelNum ∧ InRing start clear a ∧ (LazySlot.delta X a).index p = level) :=
  ⟨fun _ _ usedS usedT same => LazySlot.index_injective usedS usedT same,
    fun _ used => LazySlot.index_lt used,
    fun _ _ used => LazySlot.delta_between used,
    fun _ _ _ lo bounds => obsoleteDeltaLevelsFor_spec p lo bounds⟩

/-- At hLSM's configuration: delta sub-level 5 of logical level 2 lies below
the level's NEW sub-level, and the sub-levels of the wrapped ring `(20, 3]` are
listed once each. -/
theorem lazyLayout_sound_hlsm :
    (LazySlot.delta 2 5).index LayoutParams.hlsm < hlsmNewLevelFor 24 4 ∧
      ∃ levels, obsoleteDeltaLevelsFor 24 2 20 3 = some levels ∧ levels.Nodup := by
  obtain ⟨-, -, between, obsolete⟩ := lazyLayout_sound LayoutParams.hlsm
  obtain ⟨levels, found, distinct, -⟩ := obsolete 2 20 3 (by decide) (by unfold RingBounds; decide)
  exact ⟨(between 2 5 (by unfold LazySlot.Used; decide)).2.1, levels, found, distinct⟩

end HLsm
