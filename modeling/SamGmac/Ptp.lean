import Mathlib.Data.Rat.Floor
import Mathlib.Data.BitVec

/-! # The PTP clock

`ptp_clock_sam_gmac_rate_adjust` scales the nanosecond increment of the GMAC timer by a ratio;
`ptp_clock_sam_gmac_set`, `_get` and `_adjust` write, read and step the timer itself.
The `float` arithmetic is taken as exact arithmetic on `ℚ`. A conversion of a value that does not
fit its integer type, which C leaves undefined, is `none`.
-/

namespace SamGmac.Ptp

/-- `EINVAL`. -/
def einval : Int := 22

/-- Modelled from the GMAC: `GMAC_TI_CNS_Msk`, the nanoseconds the timer adds per clock cycle
(bits 7:0 of `GMAC_TI`). -/
def gmacTiCnsMsk : BitVec 32 := 0xFF
/-- Modelled from the GMAC: `GMAC_TISUBN_Msk`, the sub-nanosecond increment `LSBTIR` (bits 15:0
of `GMAC_TISUBN`). -/
def gmacTisubnMsk : BitVec 32 := 0xFFFF

/-- `GMAC_TI_CNS(value)`. -/
def gmacTiCns (v : Nat) : BitVec 32 := BitVec.ofNat 32 v &&& gmacTiCnsMsk
/-- `GMAC_TISUBN_LSBTIR(value)`. -/
def gmacTisubnLsbtir (v : Nat) : BitVec 32 := BitVec.ofNat 32 v &&& gmacTisubnMsk

/-- `UINT16_MAX`. -/
def uint16Max : Nat := 65535

/-- The timer registers the function reads and writes. -/
structure PtpRegs where
  ti : BitVec 32
  tisubn : BitVec 32
  deriving DecidableEq, Repr

/-- `gmac->GMAC_TI & GMAC_TI_CNS_Msk`, read into the `u8_t` `nanos`. -/
def PtpRegs.nanos (r : PtpRegs) : Nat := (r.ti &&& gmacTiCnsMsk).toNat
/-- `gmac->GMAC_TISUBN & GMAC_TISUBN_Msk`, read into the `u16_t` `subnanos`. -/
def PtpRegs.subnanos (r : PtpRegs) : Nat := (r.tisubn &&& gmacTisubnMsk).toNat

/-- A `float` converted to an unsigned type of `w` bits: truncated toward zero, or `none` when
the truncated value does not fit. -/
def toUnsigned (w : Nat) (x : ℚ) : Option Nat := if -1 < x ∧ x < 2 ^ w then some ⌊x⌋₊ else none

/-- "Do not allow drastic rate changes": the ratio clamped to `[0.5, 2]`. -/
def rateClamp (ratio : ℚ) : ℚ := if ratio < 1 / 2 then 1 / 2 else if ratio > 2 then 2 else ratio

/-- `increment = (nanos + (subnanos / UINT16_MAX)); increment *= ratio;`. Both operands of the
division are integers, so it is an integer division. -/
def rateIncrement (r : PtpRegs) (ratio : ℚ) : ℚ :=
  ((r.nanos + r.subnanos / uint16Max : Nat) : ℚ) * ratio

/-- `ptp_clock_sam_gmac_rate_adjust`: its result and the registers after it. -/
def ptpClockSamGmacRateAdjust (r : PtpRegs) (ratio : ℚ) : Option (Int × PtpRegs) :=
  if ratio = 1 then some (0, r)
  else if ratio < 0 then some (-einval, r)
  else
    let increment := rateIncrement r (rateClamp ratio)
    match toUnsigned 8 increment with
    | none => none
    | some nanos =>
      match toUnsigned 16 ((increment - nanos) * uint16Max) with
      | none => none
      | some subnanos =>
        if nanos = 0 then some (-einval, r)
        else some (0, ⟨gmacTiCns nanos, gmacTisubnLsbtir subnanos⟩)

/-! ## The fields and the conversions -/

theorem and_mask_toNat (v : Nat) (m : BitVec 32) (k : Nat) (hm : m.toNat = 2 ^ k - 1)
    (hk : k ≤ 32) : (BitVec.ofNat 32 v &&& m).toNat = v % 2 ^ k := by
  rw [BitVec.toNat_and, hm, BitVec.toNat_ofNat, Nat.and_pow_two_sub_one_eq_mod,
    Nat.mod_mod_of_dvd _ (Nat.pow_dvd_pow 2 hk)]

@[simp] theorem nanos_gmacTiCns (v : Nat) (t : BitVec 32) :
    (⟨gmacTiCns v, t⟩ : PtpRegs).nanos = v % 2 ^ 8 := by
  rw [PtpRegs.nanos, gmacTiCns, BitVec.and_assoc, BitVec.and_self]
  exact and_mask_toNat v gmacTiCnsMsk 8 rfl (by norm_num)

@[simp] theorem subnanos_gmacTisubnLsbtir (v : Nat) (t : BitVec 32) :
    (⟨t, gmacTisubnLsbtir v⟩ : PtpRegs).subnanos = v % 2 ^ 16 := by
  rw [PtpRegs.subnanos, gmacTisubnLsbtir, BitVec.and_assoc, BitVec.and_self]
  exact and_mask_toNat v gmacTisubnMsk 16 rfl (by norm_num)

theorem toUnsigned_of_lt {w : Nat} {x : ℚ} (h0 : 0 ≤ x) (h : x < 2 ^ w) :
    toUnsigned w x = some ⌊x⌋₊ := by
  simp [toUnsigned, h, show -1 < x by linarith]

theorem toUnsigned_of_le {w : Nat} {x : ℚ} (h : 2 ^ w ≤ x) : toUnsigned w x = none := by
  simp [toUnsigned, not_lt.mpr h]

theorem rateClamp_pos (ratio : ℚ) : 0 < rateClamp ratio := by
  unfold rateClamp
  split_ifs <;> linarith

theorem floor_split_bounds {x : ℚ} (hx : 0 ≤ x) :
    x - 1 / 65535 < (⌊x⌋₊ : ℚ) + (⌊(x - ⌊x⌋₊) * 65535⌋₊ : ℚ) / 65535 ∧
      (⌊x⌋₊ : ℚ) + (⌊(x - ⌊x⌋₊) * 65535⌋₊ : ℚ) / 65535 ≤ x := by
  have h1 := Nat.floor_le
    (mul_nonneg (sub_nonneg.mpr (Nat.floor_le hx)) (by norm_num : (0 : ℚ) ≤ 65535))
  have h2 := Nat.lt_floor_add_one ((x - ⌊x⌋₊) * 65535)
  constructor <;> linarith

/-- What the function does with an increment that fits the `CNS` field. -/
theorem ptpClockSamGmacRateAdjust_eq {r : PtpRegs} {ratio : ℚ} (h0 : 0 ≤ ratio) (h1 : ratio ≠ 1)
    (h : rateIncrement r (rateClamp ratio) < 256) :
    ptpClockSamGmacRateAdjust r ratio =
      if ⌊rateIncrement r (rateClamp ratio)⌋₊ = 0 then some (-einval, r)
      else some (0, ⟨gmacTiCns ⌊rateIncrement r (rateClamp ratio)⌋₊,
        gmacTisubnLsbtir ⌊(rateIncrement r (rateClamp ratio) -
          ⌊rateIncrement r (rateClamp ratio)⌋₊) * 65535⌋₊⟩) := by
  have hi : 0 ≤ rateIncrement r (rateClamp ratio) :=
    mul_nonneg (Nat.cast_nonneg _) (rateClamp_pos ratio).le
  have hf := Nat.floor_le hi
  have hf' := Nat.lt_floor_add_one (rateIncrement r (rateClamp ratio))
  simp only [ptpClockSamGmacRateAdjust, h1, if_false, not_lt.mpr h0,
    toUnsigned_of_lt (w := 8) hi (by norm_num [h]), uint16Max, Nat.cast_ofNat]
  rw [toUnsigned_of_lt (mul_nonneg (sub_nonneg.mpr hf) (by norm_num)) (by norm_num; linarith)]

theorem ptpClockSamGmacRateAdjust_of_le {r : PtpRegs} {ratio : ℚ} (h0 : 0 ≤ ratio)
    (h1 : ratio ≠ 1) (h : 256 ≤ rateIncrement r (rateClamp ratio)) :
    ptpClockSamGmacRateAdjust r ratio = none := by
  simp only [ptpClockSamGmacRateAdjust, h1, if_false, not_lt.mpr h0,
    toUnsigned_of_le (show (2 : ℚ) ^ 8 ≤ _ by norm_num; exact h)]

/-! ## The sub-nanosecond part -/

theorem rateIncrement_of_lt {r : PtpRegs} (hs : r.subnanos < 65535) (ratio : ℚ) :
    rateIncrement r ratio = ratio * r.nanos := by
  rw [rateIncrement, uint16Max, Nat.div_eq_of_lt hs, Nat.add_zero, mul_comm]

/-- `subnanos / UINT16_MAX` is an integer division: the written increment is within one `LSBTIR`
step below `r'·nanos` whatever `subnanos` is, and above 255 ns the conversion to `u8_t` is
undefined. -/
theorem rate_adjust_ignores_subnanos {r : PtpRegs} {ratio : ℚ} (h0 : 0 ≤ ratio) (h1 : ratio ≠ 1)
    (hs : r.subnanos < 65535) :
    (rateClamp ratio * r.nanos < 256 →
      ∃ res r', ptpClockSamGmacRateAdjust r ratio = some (res, r') ∧
        (res = -einval ∨ res = 0 ∧
          rateClamp ratio * r.nanos - 1 / 65535 < (r'.nanos : ℚ) + (r'.subnanos : ℚ) / 65535 ∧
          (r'.nanos : ℚ) + (r'.subnanos : ℚ) / 65535 ≤ rateClamp ratio * r.nanos)) ∧
    (256 ≤ rateClamp ratio * r.nanos → ptpClockSamGmacRateAdjust r ratio = none) := by
  rw [← rateIncrement_of_lt hs]
  refine ⟨fun h => ?_, ptpClockSamGmacRateAdjust_of_le h0 h1⟩
  have hi : 0 ≤ rateIncrement r (rateClamp ratio) :=
    mul_nonneg (Nat.cast_nonneg _) (rateClamp_pos ratio).le
  rw [ptpClockSamGmacRateAdjust_eq h0 h1 h]
  split
  · exact ⟨_, _, rfl, .inl rfl⟩
  · refine ⟨_, _, rfl, .inr ⟨rfl, ?_⟩⟩
    have hn : ⌊rateIncrement r (rateClamp ratio)⌋₊ < 2 ^ 8 :=
      (Nat.floor_lt hi).mpr (by norm_num [h])
    have hf := Nat.lt_floor_add_one (rateIncrement r (rateClamp ratio))
    have hsub : ⌊(rateIncrement r (rateClamp ratio) - ⌊rateIncrement r (rateClamp ratio)⌋₊) *
        65535⌋₊ < 2 ^ 16 :=
      (Nat.floor_lt (mul_nonneg (sub_nonneg.mpr (Nat.floor_le hi)) (by norm_num))).mpr
        (by norm_num; linarith)
    simp only [nanos_gmacTiCns, subnanos_gmacTisubnLsbtir, Nat.mod_eq_of_lt hn,
      Nat.mod_eq_of_lt hsub]
    exact floor_split_bounds hi

/-- `CNS = 8`, `LSBTIR = 32768` and a ratio of 1.5: 12 ns is written for 12.75 ns. -/
theorem rate_adjust_ignores_subnanos_half :
    (0 : ℚ) ≤ 3 / 2 ∧ (3 / 2 : ℚ) ≠ 1 ∧ (⟨8, 32768⟩ : PtpRegs).subnanos < 65535 ∧
    ptpClockSamGmacRateAdjust ⟨8, 32768⟩ (3 / 2) = some (0, ⟨gmacTiCns 12, gmacTisubnLsbtir 0⟩) ∧
    1 / 65535 < 3 / 2 * (8 + 32768 / 65535 : ℚ) - 12 ∧
    ((rateClamp (3 / 2) * (⟨8, 32768⟩ : PtpRegs).nanos < 256 →
      ∃ res r', ptpClockSamGmacRateAdjust ⟨8, 32768⟩ (3 / 2) = some (res, r') ∧
        (res = -einval ∨ res = 0 ∧
          rateClamp (3 / 2) * (⟨8, 32768⟩ : PtpRegs).nanos - 1 / 65535 <
            (r'.nanos : ℚ) + (r'.subnanos : ℚ) / 65535 ∧
          (r'.nanos : ℚ) + (r'.subnanos : ℚ) / 65535 ≤
            rateClamp (3 / 2) * (⟨8, 32768⟩ : PtpRegs).nanos)) ∧
    (256 ≤ rateClamp (3 / 2) * (⟨8, 32768⟩ : PtpRegs).nanos →
      ptpClockSamGmacRateAdjust ⟨8, 32768⟩ (3 / 2) = none)) := by
  have hs : (⟨8, 32768⟩ : PtpRegs).subnanos < 65535 := by decide
  have hinc : rateIncrement ⟨8, 32768⟩ (rateClamp (3 / 2)) = 12 := by
    rw [rateIncrement_of_lt hs, show (⟨8, 32768⟩ : PtpRegs).nanos = 8 by decide]
    norm_num [rateClamp]
  refine ⟨by norm_num, by norm_num, hs, ?_, by norm_num,
    rate_adjust_ignores_subnanos (by norm_num) (by norm_num) hs⟩
  rw [ptpClockSamGmacRateAdjust_eq (by norm_num) (by norm_num) (by rw [hinc]; norm_num), hinc]
  norm_num

/-! ## The timer: set, get and adjust -/

/-- `NSEC_PER_SEC`. -/
def nsecPerSec : Int := 1000000000

/-- Modelled from the GMAC: the `ITDT` field of `GMAC_TA` (bits 29:0), the nanoseconds to add to
or take from the timer once. -/
def gmacTaItdtMsk : BitVec 32 := 0x3FFFFFFF
/-- Modelled from the GMAC: the `ADJ` bit of `GMAC_TA` (bit 31): take `ITDT` away rather than
add it. -/
def gmacTaAdj : BitVec 32 := 0x80000000

/-- `gmac_ta.bit.ADJ = v`. -/
def taSetAdj (ta : BitVec 32) (v : Bool) : BitVec 32 :=
  (ta &&& ~~~gmacTaAdj) ||| (if v then gmacTaAdj else 0)

/-- `gmac_ta.bit.ITDT = v`: an `int` stored into the 30-bit field, modulo `2 ^ 30`. -/
def taSetItdt (ta : BitVec 32) (v : Int) : BitVec 32 :=
  (ta &&& ~~~gmacTaItdtMsk) ||| (BitVec.ofInt 32 v &&& gmacTaItdtMsk)

/-- What the GMAC does with a value written to `GMAC_TA`: it adds `ITDT` nanoseconds to the
timer, or takes them away when `ADJ` is set. -/
def taIncrement (ta : BitVec 32) : Int :=
  if ta.getLsbD 31 then -((ta &&& gmacTaItdtMsk).toNat : Int) else ((ta &&& gmacTaItdtMsk).toNat : Int)

@[simp] theorem getLsbD_taSetItdt (ta : BitVec 32) (v : Int) :
    (taSetItdt ta v).getLsbD 31 = ta.getLsbD 31 := by
  simp [taSetItdt, gmacTaItdtMsk]

@[simp] theorem getLsbD_taSetAdj (ta : BitVec 32) (v : Bool) : (taSetAdj ta v).getLsbD 31 = v := by
  cases v <;> simp [taSetAdj, gmacTaAdj]

@[simp] theorem taSetItdt_and (ta : BitVec 32) (v : Int) :
    taSetItdt ta v &&& gmacTaItdtMsk = BitVec.ofInt 32 v &&& gmacTaItdtMsk := by
  ext i
  simp only [taSetItdt, BitVec.getLsbD_and, BitVec.getLsbD_or, BitVec.getLsbD_not, i.isLt,
    decide_True, Bool.true_and]
  cases gmacTaItdtMsk.getLsbD i <;> simp

theorem taIncrement_encode (ta : BitVec 32) (b : Bool) {n : Nat} (hn : n < 2 ^ 30) :
    taIncrement (taSetItdt (taSetAdj ta b) n) = if b then -(n : Int) else n := by
  have : (BitVec.ofInt 32 (n : Int) &&& gmacTaItdtMsk).toNat = n := by
    rw [BitVec.ofInt_natCast, and_mask_toNat n gmacTaItdtMsk 30 rfl (by norm_num), Nat.mod_eq_of_lt hn]
  cases b <;> simp only [taIncrement, getLsbD_taSetItdt, getLsbD_taSetAdj, taSetItdt_and, this]

/-- The timer registers `ptp_clock_sam_gmac_set`, `_get` and `_adjust` use: the seconds
(`GMAC_TSH`, `GMAC_TSL`), the nanoseconds (`GMAC_TN`) and the adjustment (`GMAC_TA`). -/
structure TimerRegs where
  tsh : BitVec 32
  tsl : BitVec 32
  tn : BitVec 32
  ta : BitVec 32
  deriving DecidableEq, Repr

/-- `ptp_clock_sam_gmac_adjust`: its result and the registers after it; `ta` is what the
uninitialised local `gmac_ta` holds. -/
def ptpClockSamGmacAdjust (r : TimerRegs) (ta : BitVec 32) (increment : Int) : Int × TimerRegs :=
  if increment ≤ -nsecPerSec ∨ nsecPerSec ≤ increment then (-einval, r)
  else if increment < 0 then (0, { r with ta := taSetItdt (taSetAdj ta true) (-increment) })
  else (0, { r with ta := taSetItdt (taSetAdj ta false) increment })

/-- `ptp_clock_sam_gmac_adjust` takes exactly the increments of less than a second either way, and
writes only `GMAC_TA`, with a value that steps the timer by the increment; it refuses the others
with `-EINVAL`. -/
theorem ptp_adjust_writes_increment (r : TimerRegs) (ta : BitVec 32) (increment : Int) :
    (-nsecPerSec < increment ∧ increment < nsecPerSec →
      ∃ w, ptpClockSamGmacAdjust r ta increment = (0, { r with ta := w }) ∧
        taIncrement w = increment) ∧
    (increment ≤ -nsecPerSec ∨ nsecPerSec ≤ increment →
      ptpClockSamGmacAdjust r ta increment = (-einval, r)) := by
  refine ⟨fun ⟨hlo, hhi⟩ => ?_, fun h => if_pos h⟩
  have hin : ¬(increment ≤ -nsecPerSec ∨ nsecPerSec ≤ increment) := by omega
  simp only [nsecPerSec] at hlo hhi
  rw [ptpClockSamGmacAdjust, if_neg hin]
  split_ifs with hneg
  · refine ⟨_, rfl, ?_⟩
    have := taIncrement_encode ta true (n := (-increment).toNat) (by omega)
    rwa [Int.toNat_of_nonneg (by omega), if_pos rfl, neg_neg] at this
  · refine ⟨_, rfl, ?_⟩
    have := taIncrement_encode ta false (n := increment.toNat) (by omega)
    rwa [Int.toNat_of_nonneg (by omega), if_neg Bool.false_ne_true] at this

end SamGmac.Ptp
