import SamGmac.Desc
import SamGmac.Ptp

/-! # The MAC at start-up

`eth0_iface_init` programs the MAC with `gmac_init`, `mac_addr_set` and `link_configure`, in
that order; the queue and PHY set-up between them write none of the registers modelled here.
The registers are storage: a read gives the last value written. The SoC header is not among the
sources: the bit positions are the GMAC's.
-/

namespace SamGmac.Mac

open SamGmac SamGmac.Ptp

/-! ## Bit layout -/

/-- Modelled from the GMAC: `GMAC_NCR_RXEN`, receive enable (bit 2). -/
def gmacNcrRxen : BitVec 32 := 1#32 <<< 2
/-- Modelled from the GMAC: `GMAC_NCR_TXEN`, transmit enable (bit 3). -/
def gmacNcrTxen : BitVec 32 := 1#32 <<< 3
/-- Modelled from the GMAC: `GMAC_NCR_CLRSTAT`, clear the statistics (bit 5). -/
def gmacNcrClrstat : BitVec 32 := 1#32 <<< 5
/-- Modelled from the GMAC: `GMAC_NCFGR_SPD`, 100 Mbit/s (bit 0). -/
def gmacNcfgrSpd : BitVec 32 := 1#32 <<< 0
/-- Modelled from the GMAC: `GMAC_NCFGR_FD`, full duplex (bit 1). -/
def gmacNcfgrFd : BitVec 32 := 1#32 <<< 1
/-- Modelled from the GMAC: `GMAC_NCFGR_MTIHEN`, multicast hash enable (bit 6). -/
def gmacNcfgrMtihen : BitVec 32 := 1#32 <<< 6
/-- Modelled from the GMAC: `GMAC_NCFGR_LFERD`, length field error frame discard (bit 16). -/
def gmacNcfgrLferd : BitVec 32 := 1#32 <<< 16
/-- Modelled from the GMAC: `GMAC_NCFGR_RFCS`, remove the frame check sequence (bit 17). -/
def gmacNcfgrRfcs : BitVec 32 := 1#32 <<< 17
/-- Modelled from the GMAC: `GMAC_NCFGR_RXCOEN`, receive checksum offload (bit 24). -/
def gmacNcfgrRxcoen : BitVec 32 := 1#32 <<< 24
/-- Modelled from the GMAC: `GMAC_NCFGR_CLK_MCK_8`, MDC is MCK divided by 8 (`CLK`, bits 20:18). -/
def gmacNcfgrClkMck8 : BitVec 32 := 0#32 <<< 18
/-- Modelled from the GMAC: `GMAC_NCFGR_CLK_MCK_16`. -/
def gmacNcfgrClkMck16 : BitVec 32 := 1#32 <<< 18
/-- Modelled from the GMAC: `GMAC_NCFGR_CLK_MCK_32`. -/
def gmacNcfgrClkMck32 : BitVec 32 := 2#32 <<< 18
/-- Modelled from the GMAC: `GMAC_NCFGR_CLK_MCK_48`. -/
def gmacNcfgrClkMck48 : BitVec 32 := 3#32 <<< 18
/-- Modelled from the GMAC: `GMAC_NCFGR_CLK_MCK_64`. -/
def gmacNcfgrClkMck64 : BitVec 32 := 4#32 <<< 18
/-- Modelled from the GMAC: `GMAC_NCFGR_CLK_MCK_96`. -/
def gmacNcfgrClkMck96 : BitVec 32 := 5#32 <<< 18
/-- Modelled from the GMAC: `GMAC_UR_RMII` (bit 0), which selects MII when set. -/
def gmacUrRmii : BitVec 32 := 1#32 <<< 0

/-- The divisors of MCK the `CLK` field selects, by its value; 6 and 7 are reserved. -/
def mdcDivisors : List Nat := [8, 16, 32, 48, 64, 96]

/-- The divisor `GMAC_NCFGR` selects, or 0 for a reserved `CLK` value. -/
def mdcDivisor (ncfgr : BitVec 32) : Nat := mdcDivisors.getD ((ncfgr >>> 18) &&& 7).toNat 0

/-- What 802.3 asks of MDC, at most 2.5 MHz, with the fastest MDC the GMAC offers: `d` is the
least divisor of the table that brings MCK down to 2.5 MHz. -/
def MdcWithin (mck d : Nat) : Prop :=
  d ∈ mdcDivisors ∧ mck ≤ 2500000 * d ∧ ∀ d' ∈ mdcDivisors, mck ≤ 2500000 * d' → d ≤ d'

/-- `ENOTSUP`. -/
def enotsup : Int := 35

/-- `UINT32_MAX`. -/
def uint32Max : BitVec 32 := BitVec.allOnes 32

/-! ## The registers and the functions -/

/-- The registers `gmac_init`, `mac_addr_set` and `link_configure` write: network control and
configuration, the user register, the multicast hash, the specific address filters, and the PTP
timer's increment and time. -/
structure MacRegs where
  ncr : BitVec 32
  ncfgr : BitVec 32
  ur : BitVec 32
  hrb : BitVec 32
  hrt : BitVec 32
  sab : Nat → BitVec 32
  sat : Nat → BitVec 32
  increment : PtpRegs
  timer : TimerRegs

/-- `get_mck_clock_divisor`: the `u32_t` `mck_divisor`, returned as an `int`. -/
def getMckClockDivisor (mck : Nat) : Int :=
  let mckDivisor : BitVec 32 :=
    if mck ≤ 20000000 then gmacNcfgrClkMck8
    else if mck ≤ 40000000 then gmacNcfgrClkMck16
    else if mck ≤ 80000000 then gmacNcfgrClkMck32
    else if mck ≤ 120000000 then gmacNcfgrClkMck48
    else if mck ≤ 160000000 then gmacNcfgrClkMck64
    else if mck ≤ 240000000 then gmacNcfgrClkMck96
    else BitVec.ofInt 32 (-enotsup)
  mckDivisor.toInt

/-- The timer increment `gmac_init` writes: `GMAC_TI_CNS(1)`, no sub-nanoseconds. -/
def ptpIncrementInit : PtpRegs := ⟨gmacTiCns 1, 0⟩

/-- `gmac_init` with `CONFIG_ETH_SAM_GMAC_MII` as `mii` and `CONFIG_PTP_CLOCK_SAM_GMAC` as `ptp`;
`mck` is `SOC_ATMEL_SAM_MCK_FREQ_HZ`. The interrupt registers it disables and clears are not
modelled. -/
def gmacInit (mii ptp : Bool) (mck : Nat) (r : MacRegs) (gmacNcfgrVal : BitVec 32) :
    Int × MacRegs :=
  let mckDivisor := getMckClockDivisor mck
  if mckDivisor < 0 then (mckDivisor, r)
  else
    let r := { r with ncr := gmacNcrClrstat, hrb := uint32Max, hrt := uint32Max,
                      ncfgr := gmacNcfgrVal ||| BitVec.ofInt 32 mckDivisor }
    let r := if mii then { r with ur := gmacUrRmii } else r
    let r := if ptp then { r with increment := ptpIncrementInit,
                                  timer := { r.timer with tn := 0, tsh := 0, tsl := 0 } } else r
    (0, r)

/-- `mac_addr_set`; a failed `__ASSERT` on `index` is `none`. `mac_addr[3] << 24` overflows an
`int` when the byte is 0x80 or more, which C leaves undefined: it is taken as the compiler does
it, a 32-bit shift. -/
def macAddrSet (r : MacRegs) (index : Nat) (macAddr : Fin 6 → BitVec 8) : Option MacRegs :=
  if index < 4 then
    some { r with
      sab := setAt r.sab index ((macAddr 3).setWidth 32 <<< 24 ||| (macAddr 2).setWidth 32 <<< 16 |||
        (macAddr 1).setWidth 32 <<< 8 ||| (macAddr 0).setWidth 32),
      sat := setAt r.sat index ((macAddr 5).setWidth 32 <<< 8 ||| (macAddr 4).setWidth 32) }
  else none

/-- `link_configure`: with receive and transmit off, the duplex and speed bits of `flags` go to
`GMAC_NCFGR`; then RMII is selected and both are turned on. -/
def linkConfigure (r : MacRegs) (flags : BitVec 32) : MacRegs :=
  let r := { r with ncr := r.ncr &&& ~~~(gmacNcrRxen ||| gmacNcrTxen) }
  let val := r.ncfgr &&& ~~~(gmacNcfgrFd ||| gmacNcfgrSpd)
  let val := val ||| (flags &&& (gmacNcfgrFd ||| gmacNcfgrSpd))
  let r := { r with ncfgr := val, ur := 0 }
  { r with ncr := r.ncr ||| (gmacNcrRxen ||| gmacNcrTxen) }

/-- `gmac_ncfgr_val` of `eth0_iface_init`. -/
def eth0NcfgrVal : BitVec 32 := gmacNcfgrMtihen ||| gmacNcfgrLferd ||| gmacNcfgrRfcs ||| gmacNcfgrRxcoen

/-- The writes of one `eth0_iface_init` with `init_done` false to these registers. `setupOk` is
whether `queue_init`, `phy_sam_gmac_init` and `phy_sam_gmac_auto_negotiate` all succeed, and
`linkStatus` what the auto-negotiation reports; `none` is a failed assertion. -/
def eth0IfaceRegs (mii ptp : Bool) (mck : Nat) (macAddr : Fin 6 → BitVec 8) (setupOk : Bool)
    (linkStatus : BitVec 32) (r : MacRegs) : Option MacRegs :=
  let (result, r) := gmacInit mii ptp mck r eth0NcfgrVal
  if result < 0 then some r
  else (macAddrSet r 0 macAddr).map fun r => if setupOk then linkConfigure r linkStatus else r

/-! ## The MDC clock -/

theorem mdcWithin_iff {mck d : Nat} : MdcWithin mck d ↔ d ∈ mdcDivisors ∧ mck ≤ 2500000 * d ∧
    (mck ≤ 20000000 → d ≤ 8) ∧ (mck ≤ 40000000 → d ≤ 16) ∧ (mck ≤ 80000000 → d ≤ 32) ∧
    (mck ≤ 120000000 → d ≤ 48) ∧ (mck ≤ 160000000 → d ≤ 64) ∧ (mck ≤ 240000000 → d ≤ 96) := by
  simp only [MdcWithin, mdcDivisors, List.forall_mem_cons, List.not_mem_nil, false_implies,
    implies_true, and_true]

theorem getMckClockDivisor_of_le {mck : Nat} (h : mck ≤ 240000000) :
    ∃ k < 6, getMckClockDivisor mck = ((k * 2 ^ 18 : Nat) : Int) ∧
      MdcWithin mck (mdcDivisors.getD k 0) := by
  unfold getMckClockDivisor
  split_ifs
  · exact ⟨0, by norm_num, rfl, show MdcWithin mck 8 from mdcWithin_iff.mpr ⟨by decide, by omega⟩⟩
  · exact ⟨1, by norm_num, rfl, show MdcWithin mck 16 from mdcWithin_iff.mpr ⟨by decide, by omega⟩⟩
  · exact ⟨2, by norm_num, rfl, show MdcWithin mck 32 from mdcWithin_iff.mpr ⟨by decide, by omega⟩⟩
  · exact ⟨3, by norm_num, rfl, show MdcWithin mck 48 from mdcWithin_iff.mpr ⟨by decide, by omega⟩⟩
  · exact ⟨4, by norm_num, rfl, show MdcWithin mck 64 from mdcWithin_iff.mpr ⟨by decide, by omega⟩⟩
  · exact ⟨5, by norm_num, rfl, show MdcWithin mck 96 from mdcWithin_iff.mpr ⟨by decide, by omega⟩⟩

theorem getMckClockDivisor_of_gt {mck : Nat} (h : 240000000 < mck) :
    getMckClockDivisor mck = -enotsup := by
  simp only [getMckClockDivisor, show ¬mck ≤ 240000000 by omega, show ¬mck ≤ 160000000 by omega,
    show ¬mck ≤ 120000000 by omega, show ¬mck ≤ 80000000 by omega, show ¬mck ≤ 40000000 by omega,
    show ¬mck ≤ 20000000 by omega, if_false]
  rfl

theorem mdcDivisor_eth0NcfgrVal {k : Nat} (hk : k < 6) :
    mdcDivisor (eth0NcfgrVal ||| BitVec.ofInt 32 ((k * 2 ^ 18 : Nat) : Int)) = mdcDivisors.getD k 0 := by
  rcases k with _ | _ | _ | _ | _ | _ | k
  all_goals first | rfl | omega

theorem linkConfigure_ncfgr_shift (r : MacRegs) (flags : BitVec 32) :
    (linkConfigure r flags).ncfgr >>> 18 = r.ncfgr >>> 18 := by
  ext i
  by_cases hi : 18 + (i : Nat) < 32
  · simp only [linkConfigure, BitVec.getLsbD_ushiftRight, BitVec.getLsbD_or,
      BitVec.getLsbD_and, BitVec.getLsbD_not, gmacNcfgrFd, gmacNcfgrSpd,
      getLsbD_bit 1 _ (by norm_num), getLsbD_bit 0 _ (by norm_num), hi,
      show 18 + (i : Nat) ≠ 0 by omega, show 18 + (i : Nat) ≠ 1 by omega]
    simp
  · simp [BitVec.getLsbD_ge _ _ (not_lt.mp hi)]

theorem mdcDivisor_linkConfigure (r : MacRegs) (flags : BitVec 32) :
    mdcDivisor (linkConfigure r flags).ncfgr = mdcDivisor r.ncfgr := by
  rw [mdcDivisor, linkConfigure_ncfgr_shift, mdcDivisor]

theorem gmacInit_of_nonneg {mck : Nat} (h : 0 ≤ getMckClockDivisor mck) (mii ptp : Bool)
    (r : MacRegs) (v : BitVec 32) :
    (gmacInit mii ptp mck r v).1 = 0 ∧
      (gmacInit mii ptp mck r v).2.ncfgr = v ||| BitVec.ofInt 32 (getMckClockDivisor mck) ∧
      (gmacInit mii ptp mck r v).2.ncr = gmacNcrClrstat := by
  cases mii <;> cases ptp <;> simp [gmacInit, not_lt.mpr h]

theorem macAddrSet_frame {r r' : MacRegs} {index : Nat} {macAddr : Fin 6 → BitVec 8}
    (h : macAddrSet r index macAddr = some r') : { r' with sab := r.sab, sat := r.sat } = r := by
  unfold macAddrSet at h
  split_ifs at h
  cases h
  rfl

theorem eth0IfaceRegs_of_nonneg {mck : Nat} (h : 0 ≤ getMckClockDivisor mck) (mii ptp : Bool)
    (macAddr : Fin 6 → BitVec 8) (setupOk : Bool) (linkStatus : BitVec 32) (r : MacRegs) :
    ∃ r₂, macAddrSet (gmacInit mii ptp mck r eth0NcfgrVal).2 0 macAddr = some r₂ ∧
      eth0IfaceRegs mii ptp mck macAddr setupOk linkStatus r =
        some (if setupOk then linkConfigure r₂ linkStatus else r₂) := by
  have h₁ := (gmacInit_of_nonneg h mii ptp r eth0NcfgrVal).1
  refine ⟨_, if_pos (by norm_num), ?_⟩
  rw [eth0IfaceRegs, ← Prod.mk.eta (p := gmacInit mii ptp mck r eth0NcfgrVal), h₁]
  simp only [lt_self_iff_false, if_false, macAddrSet, if_pos (show 0 < 4 by norm_num), Option.map_some']

/-- Up to 240 MHz, `eth0_iface_init` leaves MDC at the least divisor keeping it within 2.5 MHz,
whatever the set-up does; above, `gmac_init` fails with `-ENOTSUP` and nothing is written. -/
theorem eth0_iface_init_mdc_within_limit (mii ptp : Bool) (mck : Nat) (macAddr : Fin 6 → BitVec 8)
    (setupOk : Bool) (linkStatus : BitVec 32) (r : MacRegs) :
    (mck ≤ 240000000 → ∃ r', eth0IfaceRegs mii ptp mck macAddr setupOk linkStatus r = some r' ∧
      MdcWithin mck (mdcDivisor r'.ncfgr)) ∧
    (240000000 < mck → (gmacInit mii ptp mck r eth0NcfgrVal).1 = -enotsup ∧
      eth0IfaceRegs mii ptp mck macAddr setupOk linkStatus r = some r) := by
  refine ⟨fun hle => ?_, fun hgt => ?_⟩
  · obtain ⟨k, hk, hd, hw⟩ := getMckClockDivisor_of_le hle
    obtain ⟨r₂, h₂, he⟩ := eth0IfaceRegs_of_nonneg (hd ▸ Int.natCast_nonneg _) mii ptp macAddr
      setupOk linkStatus r
    refine ⟨_, he, ?_⟩
    have hn : mdcDivisor r₂.ncfgr = mdcDivisors.getD k 0 := by
      rw [show r₂.ncfgr = (gmacInit mii ptp mck r eth0NcfgrVal).2.ncfgr by
        rw [← macAddrSet_frame h₂], (gmacInit_of_nonneg (hd ▸ Int.natCast_nonneg _) mii ptp r
        eth0NcfgrVal).2.1, hd, mdcDivisor_eth0NcfgrVal hk]
    cases setupOk
    · simpa only [Bool.false_eq_true, ↓reduceIte, hn] using hw
    · simpa only [↓reduceIte, mdcDivisor_linkConfigure, hn] using hw
  · simp only [eth0IfaceRegs, gmacInit, getMckClockDivisor_of_gt hgt, enotsup]
    norm_num

/-! ## The link -/

theorem and_not_or_and {a m : BitVec 32} (h : a &&& m = 0) (f : BitVec 32) :
    a &&& ~~~m ||| f &&& m = a ||| f &&& m := by
  ext i
  have hi := congrArg (·.getLsbD i) h
  simp only [BitVec.getLsbD_and, BitVec.getLsbD_zero] at hi
  simp only [BitVec.getLsbD_or, BitVec.getLsbD_and, BitVec.getLsbD_not, i.isLt, decide_True,
    Bool.true_and]
  cases ha : a.getLsbD i <;> cases hm : m.getLsbD i <;> simp_all

/-- After a successful start-up, `GMAC_NCFGR` holds `gmac_ncfgr_val`, the chosen `CLK` and the
link's duplex and speed, receive and transmit are on, and `GMAC_UR` selects RMII even with MII
configured. -/
theorem eth0_iface_init_link_registers (mii ptp : Bool) {mck : Nat} (hmck : mck ≤ 240000000)
    (macAddr : Fin 6 → BitVec 8) (linkStatus : BitVec 32) (r : MacRegs) :
    ∃ r', eth0IfaceRegs mii ptp mck macAddr true linkStatus r = some r' ∧
      r'.ncfgr = eth0NcfgrVal ||| BitVec.ofInt 32 (getMckClockDivisor mck) |||
        linkStatus &&& (gmacNcfgrFd ||| gmacNcfgrSpd) ∧
      r'.ncr = gmacNcrClrstat ||| gmacNcrRxen ||| gmacNcrTxen ∧ r'.ur = 0 := by
  obtain ⟨k, hk, hd, -⟩ := getMckClockDivisor_of_le hmck
  have h0 : 0 ≤ getMckClockDivisor mck := hd ▸ Int.natCast_nonneg _
  obtain ⟨r₂, h₂, he⟩ := eth0IfaceRegs_of_nonneg h0 mii ptp macAddr true linkStatus r
  have hg := gmacInit_of_nonneg h0 mii ptp r eth0NcfgrVal
  have hn : r₂.ncfgr = eth0NcfgrVal ||| BitVec.ofInt 32 (getMckClockDivisor mck) := by
    rw [← hg.2.1, ← macAddrSet_frame h₂]
  have hc : r₂.ncr = gmacNcrClrstat := by rw [← hg.2.2, ← macAddrSet_frame h₂]
  have hclk : (eth0NcfgrVal ||| BitVec.ofInt 32 (getMckClockDivisor mck)) &&&
      (gmacNcfgrFd ||| gmacNcfgrSpd) = 0 := by
    rw [hd]
    rcases k with _ | _ | _ | _ | _ | _ | k
    all_goals first | decide | omega
  refine ⟨_, he, ?_, ?_, rfl⟩
  · simp only [↓reduceIte, linkConfigure, hn]
    exact and_not_or_and hclk linkStatus
  · simp only [↓reduceIte, linkConfigure, hc]
    decide

/-- With MII configured, a 150 MHz MCK and a full-duplex 100 Mbit/s link: `GMAC_UR` ends at RMII. -/
theorem eth0_iface_init_link_registers_mii :
    (150000000 : Nat) ≤ 240000000 ∧
    ∃ r', eth0IfaceRegs true true 150000000 (fun _ => 0) true (gmacNcfgrFd ||| gmacNcfgrSpd)
        ⟨0, 0, 0, 0, 0, fun _ => 0, fun _ => 0, ⟨0, 0⟩, ⟨0, 0, 0, 0⟩⟩ = some r' ∧
      r'.ncfgr = eth0NcfgrVal ||| BitVec.ofInt 32 (getMckClockDivisor 150000000) |||
        (gmacNcfgrFd ||| gmacNcfgrSpd) &&& (gmacNcfgrFd ||| gmacNcfgrSpd) ∧
      r'.ncr = gmacNcrClrstat ||| gmacNcrRxen ||| gmacNcrTxen ∧ r'.ur = 0 :=
  ⟨by norm_num, eth0_iface_init_link_registers true true (by norm_num) (fun _ => 0)
    (gmacNcfgrFd ||| gmacNcfgrSpd) ⟨0, 0, 0, 0, 0, fun _ => 0, fun _ => 0, ⟨0, 0⟩, ⟨0, 0, 0, 0⟩⟩⟩

/-! ## The address filters -/

theorem sa_encode (a : Fin 6 → BitVec 8) :
    ((a 5).setWidth 32 <<< 8 ||| (a 4).setWidth 32).setWidth 16 ++
      ((a 3).setWidth 32 <<< 24 ||| (a 2).setWidth 32 <<< 16 ||| (a 1).setWidth 32 <<< 8 |||
        (a 0).setWidth 32) =
    a 5 ++ a 4 ++ a 3 ++ a 2 ++ a 1 ++ a 0 := by
  ext i
  have hi := i.isLt
  simp only [BitVec.getLsbD_append, BitVec.getLsbD_setWidth, BitVec.getLsbD_or,
    BitVec.getLsbD_shiftLeft, Nat.sub_sub]
  rcases (by omega : (i : Nat) < 8 ∨ (i : Nat) / 8 = 1 ∨ (i : Nat) / 8 = 2 ∨ (i : Nat) / 8 = 3 ∨
    (i : Nat) / 8 = 4 ∨ (i : Nat) / 8 = 5) with h | h | h | h | h | h <;>
  simp (disch := omega) [decide_eq_true, decide_eq_false, BitVec.getLsbD_ge]

/-- Below index 4, `mac_addr_set` stores the address in filter `index`, first byte lowest, and
writes nothing else; a larger index fails the assertion. -/
theorem mac_addr_set_stores_address (r : MacRegs) (index : Nat) (macAddr : Fin 6 → BitVec 8) :
    (index < 4 → ∃ r', macAddrSet r index macAddr = some r' ∧
      (r'.sat index).setWidth 16 ++ r'.sab index =
        macAddr 5 ++ macAddr 4 ++ macAddr 3 ++ macAddr 2 ++ macAddr 1 ++ macAddr 0 ∧
      r'.sat index >>> 16 = 0 ∧
      (∀ j, j ≠ index → r'.sab j = r.sab j ∧ r'.sat j = r.sat j) ∧
      { r' with sab := r.sab, sat := r.sat } = r) ∧
    (4 ≤ index → macAddrSet r index macAddr = none) := by
  refine ⟨fun h => ⟨_, if_pos h, ?_, ?_, fun j hj => ⟨setAt_ne _ _ hj, setAt_ne _ _ hj⟩, rfl⟩,
    fun h => if_neg (by omega)⟩
  · simpa only [setAt_same] using sa_encode macAddr
  · simp only [setAt_same]
    ext i
    simp (disch := omega) [BitVec.getLsbD_ge]

/-! ## The timer increment from `gmac_init` on -/

/-- Calls of `ptp_clock_sam_gmac_rate_adjust`, one after another: the registers after them, or
`none` once a conversion is undefined. `gmac_init` alone writes these registers besides. -/
def rateAdjustRun (r : PtpRegs) : List ℚ → Option PtpRegs
  | [] => some r
  | ratio :: ratios => (ptpClockSamGmacRateAdjust r ratio).bind fun res => rateAdjustRun res.2 ratios

/-- At least one nanosecond per cycle, and a sub-nanosecond part below `UINT16_MAX`, which
`subnanos / UINT16_MAX` therefore drops. -/
def IncrementOk (r : PtpRegs) : Prop := 1 ≤ r.nanos ∧ r.subnanos < 65535

instance (r : PtpRegs) : Decidable (IncrementOk r) := inferInstanceAs (Decidable (_ ∧ _))

theorem IncrementOk.init : IncrementOk ptpIncrementInit := by decide

theorem IncrementOk.rateAdjust {r r' : PtpRegs} {ratio : ℚ} {res : Int} (hr : IncrementOk r)
    (h : ptpClockSamGmacRateAdjust r ratio = some (res, r')) : IncrementOk r' := by
  by_cases h1 : ratio = 1
  · simp only [ptpClockSamGmacRateAdjust, h1, if_true, Option.some.injEq, Prod.mk.injEq] at h
    exact h.2 ▸ hr
  by_cases h0 : ratio < 0
  · simp only [ptpClockSamGmacRateAdjust, h1, h0, if_true, if_false, Option.some.injEq,
      Prod.mk.injEq] at h
    exact h.2 ▸ hr
  have hi : 0 ≤ rateIncrement r (rateClamp ratio) :=
    mul_nonneg (Nat.cast_nonneg _) (rateClamp_pos ratio).le
  by_cases hlt : rateIncrement r (rateClamp ratio) < 256
  · rw [ptpClockSamGmacRateAdjust_eq (not_lt.mp h0) h1 hlt] at h
    split_ifs at h with hz
    · exact (Prod.mk.inj (Option.some.inj h)).2 ▸ hr
    · cases h
      set x := rateIncrement r (rateClamp ratio)
      have hn : ⌊x⌋₊ < 2 ^ 8 := (Nat.floor_lt hi).mpr (by norm_num [hlt])
      have hfrac : (x - ⌊x⌋₊) * 65535 < 65535 := by linarith [Nat.lt_floor_add_one x]
      have hs : ⌊(x - ⌊x⌋₊) * 65535⌋₊ < 65535 :=
        (Nat.floor_lt (mul_nonneg (sub_nonneg.mpr (Nat.floor_le hi)) (by norm_num))).mpr
          (by exact_mod_cast hfrac)
      simp only [IncrementOk, nanos_gmacTiCns, subnanos_gmacTisubnLsbtir, Nat.mod_eq_of_lt hn]
      omega
  · rw [ptpClockSamGmacRateAdjust_of_le (not_lt.mp h0) h1 (not_lt.mp hlt)] at h
    cases h

theorem IncrementOk.run {ratios : List ℚ} : ∀ {r r' : PtpRegs}, IncrementOk r →
    rateAdjustRun r ratios = some r' → IncrementOk r' := by
  induction ratios with
  | nil => intro r r' hr h; cases h; exact hr
  | cons ratio ratios ih =>
    intro r r' hr h
    simp only [rateAdjustRun, Option.bind_eq_some] at h
    obtain ⟨⟨res, r₁⟩, h₁, h⟩ := h
    exact ih (hr.rateAdjust h₁) h

theorem rateAdjust_slower_of_one {r : PtpRegs} (hr : IncrementOk r) (hn : r.nanos = 1) {ratio : ℚ}
    (h0 : 0 ≤ ratio) (h1 : ratio < 1) : ptpClockSamGmacRateAdjust r ratio = some (-einval, r) := by
  have hinc : rateIncrement r (rateClamp ratio) = rateClamp ratio := by
    rw [rateIncrement_of_lt hr.2, hn, Nat.cast_one, mul_one]
  have hc : rateClamp ratio < 1 := by
    unfold rateClamp
    split_ifs with ha hb
    · norm_num
    · exact absurd hb (by linarith)
    · exact h1
  rw [ptpClockSamGmacRateAdjust_eq h0 h1.ne (by rw [hinc]; linarith), hinc,
    if_pos (Nat.floor_eq_zero.mpr hc)]

/-- After `gmac_init` the increment stays at one nanosecond or more, and while it is one nanosecond
every ratio in `[0, 1)` is refused with `-EINVAL`. -/
theorem rate_adjust_never_slows_one_ns {ratios : List ℚ} {r : PtpRegs}
    (h : rateAdjustRun ptpIncrementInit ratios = some r) :
    1 ≤ r.nanos ∧ r.subnanos < 65535 ∧
      (r.nanos = 1 → ∀ ratio : ℚ, 0 ≤ ratio → ratio < 1 →
        ptpClockSamGmacRateAdjust r ratio = some (-einval, r)) := by
  have hr := IncrementOk.init.run h
  exact ⟨hr.1, hr.2, fun hn _ h0 h1 => rateAdjust_slower_of_one hr hn h0 h1⟩

/-- Slowing down is refused, speeding up by half is taken as 1 ns and 32767 steps, and slowing down
is refused again. -/
theorem rate_adjust_never_slows_one_ns_after_calls :
    ∃ r, rateAdjustRun ptpIncrementInit [1 / 2, 3 / 2, 1 / 2] = some r ∧ r.subnanos = 32767 ∧
      1 ≤ r.nanos ∧ r.subnanos < 65535 ∧
      (r.nanos = 1 → ∀ ratio : ℚ, 0 ≤ ratio → ratio < 1 →
        ptpClockSamGmacRateAdjust r ratio = some (-einval, r)) := by
  have h1 : ptpIncrementInit.nanos = 1 := by decide
  have hinc : rateIncrement ptpIncrementInit (rateClamp (3 / 2)) = 3 / 2 := by
    rw [rateIncrement_of_lt IncrementOk.init.2, h1]; norm_num [rateClamp]
  have hfast : ptpClockSamGmacRateAdjust ptpIncrementInit (3 / 2) =
      some (0, ⟨gmacTiCns 1, gmacTisubnLsbtir 32767⟩) := by
    rw [ptpClockSamGmacRateAdjust_eq (by norm_num) (by norm_num) (by rw [hinc]; norm_num), hinc,
      (Nat.floor_eq_iff (by norm_num)).mpr (show (1 : ℚ) ≤ 3 / 2 ∧ (3 / 2 : ℚ) < 1 + 1 by norm_num),
      (Nat.floor_eq_iff (by norm_num)).mpr
        (show (32767 : ℚ) ≤ (3 / 2 - (1 : ℕ)) * 65535 ∧ (3 / 2 - (1 : ℕ)) * 65535 < (32767 : ℚ) + 1 by
          norm_num)]
    rfl
  have hn : (⟨gmacTiCns 1, gmacTisubnLsbtir 32767⟩ : PtpRegs).nanos = 1 := by simp
  have hok : IncrementOk ⟨gmacTiCns 1, gmacTisubnLsbtir 32767⟩ := by simp [IncrementOk]
  have hrun : rateAdjustRun ptpIncrementInit [1 / 2, 3 / 2, 1 / 2] =
      some ⟨gmacTiCns 1, gmacTisubnLsbtir 32767⟩ := by
    simp only [rateAdjustRun, @rateAdjust_slower_of_one _ IncrementOk.init h1 (1 / 2)
      (by norm_num) (by norm_num), hfast, @rateAdjust_slower_of_one _ hok hn (1 / 2) (by norm_num)
      (by norm_num), Option.some_bind]
  exact ⟨_, hrun, by simp, rate_adjust_never_slows_one_ns hrun⟩

end SamGmac.Mac
