import SamGmac.Rx.Frames

/-! # The assertions of `frame_get`

`frame_get` asserts that the descriptor at the tail has `SOF` once its first loop has found a
complete frame, that each descriptor's address word is the data pointer of the buffer
`rx_frag_list` holds for it, and that the second loop ends on a frame's last descriptor. They
hold in every state the RX side reaches, frames the GMAC drops included. From the driver's
position, the descriptors it owns are the next `k` slots. They hold runs of buffers, where each
`EOF` is followed by an `SOF`, and the run the driver is at starts with `SOF` unless a
`frame_get` call is part way through it.
-/

namespace SamGmac.Rx

open SamGmac

/-- The descriptor `j` slots after the driver's position, in a ring of `R`. -/
def RxSys.ahead (R : Nat) (s : RxSys) (j : Nat) : GmacDesc :=
  s.q.rxDescList.buf (slotAfter R s.pos j)

/-- The invariant of the RX ring under every step, for a ring of `R` descriptors of which the
driver owns `k`. Besides the ring invariant: the descriptors the driver owns are the `k` from its
position, up to the DMA's pointer; an `EOF` among them is followed by an `SOF`; a frame the DMA
is part way through continues the last of them, which has no `EOF`; the run at the driver's
position starts with `SOF` unless the second loop of `frame_get` is in it; and the frame that
loop is taking ends among them. -/
structure RxRuns (R : Nat) (D : Nat → BitVec 32) (k : Nat) (s : RxSys) : Prop where
  inv : RxInv R D s
  count : k ≤ R
  ptr : s.dma.ptr = slotAfter R s.pos k
  own : ∀ j < R, flag (s.ahead R j).w0 gmacRxw0Ownership = decide (j < k)
  sof : ∀ j, j + 1 < k → flag (s.ahead R j).w1 gmacRxw1Eof = true →
    flag (s.ahead R (j + 1)).w1 gmacRxw1Sof = true
  dma : ∀ f, s.dma.frame = some f → 0 < f.2 →
    0 < k ∧ flag (s.ahead R (k - 1)).w1 gmacRxw1Eof = false
  first : (∀ fg, s.fg = some fg → fg.complete = true) → 0 < k →
    flag (s.ahead R 0).w1 gmacRxw1Sof = true
  call : ∀ fg, s.fg = some fg → fg.complete = false →
    ∃ j < k, flag (s.ahead R j).w1 gmacRxw1Eof = true

theorem RxRuns.init {ok : Nat → Bool} {q : RxQueue} {p : RxPool} {mem : Nat → List (BitVec 8)}
    {s : RxSys} (hR : 0 < q.rxDescList.len) (h : rxInit ok q p mem = some s) :
    RxRuns q.rxDescList.len p.data 0 s := by
  have hi := RxInv.init hR h
  obtain ⟨h0, rfl⟩ := rxInit_eq h
  obtain ⟨-, -, ht, -, hd⟩ := rxDescriptorsInit_ok h0
  refine ⟨hi, Nat.zero_le _, ?_, fun j hj => ?_, fun _ h => absurd h (by omega),
    fun _ h => (nomatch h), fun _ h => absurd h (by omega), fun _ h => (nomatch h)⟩
  · simp [RxSys.pos, ht, slotAfter_zero hR]
  · simp only [RxSys.ahead, RxSys.pos, ht, Option.map_none', Option.getD_none]
    rw [(hd (slotAfter _ 0 j) (Nat.mod_lt _ hR)).2]
    simp [rxInitDesc_ownership]

section
variable {R : Nat} {D : Nat → BitVec 32} {k : Nat} {s s' : RxSys}

theorem RxRuns.ahead_zero (hr : RxRuns R D k s) : s.ahead R 0 = s.q.rxDescList.buf s.pos := by
  rw [RxSys.ahead, slotAfter_zero hr.inv.pos_lt]

theorem RxRuns.own_zero (hr : RxRuns R D k s) :
    flag (s.q.rxDescList.buf s.pos).w0 gmacRxw0Ownership = decide (0 < k) := by
  rw [← hr.ahead_zero, hr.own 0 hr.inv.pos]

theorem RxRuns.eof_of_scan (hr : RxRuns R D k s) {fuel t : Nat} (ht : t < R)
    (hs : rxFrameScan s.q.rxDescList fuel t = true) :
    ∃ j < k, flag (s.ahead R j).w1 gmacRxw1Eof = true := by
  by_contra hno
  have hnoEof : ∀ i < s.q.rxDescList.len, flag (s.q.rxDescList.buf i).w0 gmacRxw0Ownership = true →
      flag (s.q.rxDescList.buf i).w1 gmacRxw1Eof = false := fun i hi hown => by
    rw [hr.inv.len] at hi
    rw [← slotAfter_back hi hr.inv.pos_lt] at hown ⊢
    change flag (s.ahead R _).w0 _ = true at hown
    rw [hr.own _ (Nat.mod_lt _ hr.inv.pos), decide_eq_true_eq] at hown
    exact Bool.eq_false_iff.mpr fun h => hno ⟨_, hown, h⟩
  rw [rxFrameScan_eq_false_of_noEof hnoEof fuel t (hr.inv.len ▸ ht)] at hs
  cases hs

theorem RxRuns.dmaFrame (hr : RxRuns R D k s) (f : Option (List (BitVec 8) × Nat))
    (hf : ∀ f', f = some f' → f'.2 = 0) : RxRuns R D k { s with dma := { s.dma with frame := f } } :=
  { hr with inv := { hr.inv with },
            dma := fun f' h h0 => absurd (hf f' h) (Nat.pos_iff_ne_zero.mp h0) }

theorem RxRuns.dmaWrite {dataSize : Nat} (hr : RxRuns R D k s) (h : rxDmaWrite dataSize s = some s') :
    RxRuns R D (k + 1) s' := by
  have hi' := hr.inv.dma h
  obtain ⟨P, off, hd, hown, rfl⟩ := rxDmaWrite_some h
  have hR := hr.inv.pos
  have hptr := hr.inv.dmaPtr
  have hk : k < R := by
    refine lt_of_le_of_ne hr.count fun hk => ?_
    have h0 := hr.own 0 hR
    rw [RxSys.ahead, show slotAfter R s.pos 0 = s.dma.ptr by rw [hr.ptr, hk]; simp [slotAfter],
      hown] at h0
    simp at h0; omega
  have hoff : 0 < off → 0 < k ∧ flag (s.ahead R (k - 1)).w1 gmacRxw1Eof = false :=
    hr.dma (P, off) hd
  set s' := s.dmaWritten dataSize P off with hs'
  have hahead : ∀ j < R, s'.ahead R j = if j = k then
      ⟨(s.q.rxDescList.buf s.dma.ptr).w0 ||| gmacRxw0Ownership, rxStatus (decide (off = 0))
        (decide ((P.drop off).length ≤ rxBufSize dataSize)) P.length⟩ else s.ahead R j := by
    intro j hj
    have hset : s'.ahead R j = if slotAfter R s.pos j = s.dma.ptr then
        ⟨(s.q.rxDescList.buf s.dma.ptr).w0 ||| gmacRxw0Ownership, rxStatus (decide (off = 0))
          (decide ((P.drop off).length ≤ rxBufSize dataSize)) P.length⟩ else s.ahead R j :=
      RxQueue.setDesc_buf _ _ _ _
    rw [hset, hr.ptr]
    by_cases hjk : j = k
    · rw [if_pos (congrArg _ hjk), if_pos hjk]
    · rw [if_neg fun h' => hjk (slotAfter_inj hj hk h'), if_neg hjk]
  have hnew_sof : flag (s'.ahead R k).w1 gmacRxw1Sof = decide (off = 0) := by
    rw [hahead k hk, if_pos rfl]; exact rxStatus_sof _ _ _
  refine ⟨hi', hk, ?_, fun j hj => ?_, fun j hj heof => ?_, fun f hf h0 => ?_,
    fun hfg hk0 => ?_, fun fg hfg hc => ?_⟩
  · show s'.dma.ptr = slotAfter R s.pos (k + 1)
    rw [← moduloInc_slotAfter hR, ← hr.ptr, moduloInc_apply]
    simp only [hs', RxSys.dmaWritten, hr.inv.wrap _ hptr, decide_eq_true_eq]
    split_ifs <;> omega
  · rw [hahead j hj]
    by_cases hjk : j = k
    · simp [hjk, flag_rxw0Ownership]
    · rw [if_neg hjk, hr.own j hj]
      simp only [decide_eq_decide]
      omega
  · rw [hahead j (by omega), if_neg (by omega)] at heof
    by_cases hjk : j + 1 = k
    · subst hjk
      rw [hnew_sof, decide_eq_true_eq]
      by_contra h0
      simpa [heof] using (hoff (Nat.pos_of_ne_zero h0)).2
    · rw [hahead (j + 1) (by omega), if_neg hjk]
      exact hr.sof j (by omega) heof
  · simp only [hs', RxSys.dmaWritten] at hf
    split_ifs at hf with hl
    cases hf
    refine ⟨Nat.succ_pos k, ?_⟩
    rw [Nat.add_sub_cancel, hahead k hk, if_pos rfl, rxStatus_eof]
    exact Bool.eq_false_iff.mpr hl
  · by_cases hk0' : k = 0
    · subst hk0'
      rw [hnew_sof, decide_eq_true_eq]
      by_contra h0
      exact absurd (hoff (Nat.pos_of_ne_zero h0)).1 (Nat.lt_irrefl 0)
    · rw [hahead 0 hR, if_neg (Ne.symm hk0')]
      exact hr.first hfg (Nat.pos_of_ne_zero hk0')
  · obtain ⟨j, hj, heof⟩ := hr.call fg hfg hc
    refine ⟨j, by omega, ?_⟩
    rw [hahead j (by omega), if_neg (by omega)]
    exact heof

theorem RxRuns.scan {okFrame : Bool} {fg : FrameGet} (hr : RxRuns R D k s) (hfg : s.fg = none)
    (h : frameGetStart s.q okFrame = some fg) : RxRuns R D k { s with fg := some fg } := by
  obtain ⟨ht, -, -, hc⟩ := frameGetStart_some h
  have hs : rxFrameScan s.q.rxDescList s.q.rxDescList.len s.q.rxDescList.tail = true := by
    by_contra hs; simp [frameGetStart, hs] at h
  have hpos : RxSys.pos { s with fg := some fg } = s.pos := by simp [RxSys.pos, hfg, ht]
  have hahead : RxSys.ahead R { s with fg := some fg } = s.ahead R := by
    funext j; simp only [RxSys.ahead, hpos]
  refine ⟨hr.inv.scan hfg h, hr.count, hpos ▸ hr.ptr, hahead ▸ hr.own, hahead ▸ hr.sof,
    hahead ▸ hr.dma, fun hall _ => ?_, fun fg' h' _ => ?_⟩
  · cases hc.symm.trans (hall fg rfl)
  · cases h'
    rw [hahead]
    exact hr.eof_of_scan (hr.inv.len ▸ hr.inv.tail) hs

theorem RxRuns.turn {dataSize : Nat} {okFrag : Bool} {fg : FrameGet} (hr : RxRuns R D k s)
    (hfg : s.fg = some fg) (hmore : fg.more s.q = true) :
    RxRuns R D (k - 1)
      { s with q := (frameGetTurn dataSize okFrag s.q s.pool fg).1,
               pool := (frameGetTurn dataSize okFrag s.q s.pool fg).2.1,
               fg := some (frameGetTurn dataSize okFrag s.q s.pool fg).2.2.1,
               released := s.released ++ (frameGetTurn dataSize okFrag s.q s.pool fg).2.2.2.toList } := by
  have hR := hr.inv.pos
  have ht := hr.inv.fgTail fg hfg
  have hpos : s.pos = fg.tail := by simp [RxSys.pos, hfg]
  simp only [FrameGet.more, Bool.and_eq_true, Bool.not_eq_true'] at hmore
  obtain ⟨hown, hc⟩ := hmore
  have hkR := hr.count
  have hk : 0 < k := by simpa [hpos, hown] using hr.own_zero
  obtain ⟨j₀, hj₀, heof₀⟩ := hr.call fg hfg hc
  obtain ⟨d, hd, hdl, htail⟩ := frameGetTurn_gives_back dataSize okFrag s.q s.pool fg
  obtain ⟨-, -, -, fr', hfg', -⟩ := frameGetTurn_frame dataSize okFrag s.q s.pool fg
  set s' := { s with q := (frameGetTurn dataSize okFrag s.q s.pool fg).1,
                     pool := (frameGetTurn dataSize okFrag s.q s.pool fg).2.1,
                     fg := some (frameGetTurn dataSize okFrag s.q s.pool fg).2.2.1,
                     released := s.released ++ (frameGetTurn dataSize okFrag s.q s.pool fg).2.2.2.toList }
    with hs'
  have h0 : slotAfter R s.pos 0 = fg.tail := by rw [slotAfter_zero hr.inv.pos_lt, hpos]
  have hpos' : s'.pos = slotAfter R s.pos 1 := by
    have := @moduloInc_slotAfter R fg.tail 0 hR
    rw [slotAfter_zero ht] at this
    rw [hpos]
    simpa [hs', RxSys.pos, htail, hr.inv.len] using this
  have hshift : ∀ j, j + 1 < R → s'.ahead R j = s.ahead R (j + 1) := fun j hj => by
    rw [RxSys.ahead, hpos', slotAfter_slotAfter, Nat.add_comm 1 j]
    simp only [hs', hdl]
    rw [setAt_ne _ _ fun h => by have := slotAfter_inj hj hR (h.trans h0.symm); omega]
    rfl
  have hcomplete : (frameGetTurn dataSize okFrag s.q s.pool fg).2.2.1.complete =
      flag (s.ahead R 0).w1 gmacRxw1Eof := by
    rw [hfg', hr.ahead_zero, hpos]; rfl
  have hk2 : ∀ f, s.dma.frame = some f → 0 < f.2 → 1 < k := fun f hf h0 => by
    obtain ⟨-, hlast⟩ := hr.dma f hf h0
    by_contra hk1
    obtain rfl : j₀ = k - 1 := by omega
    rw [hlast] at heof₀
    cases heof₀
  refine ⟨hr.inv.turn hfg, by omega, ?_, fun j hj => ?_, fun j hj heof => ?_, fun f hf h0 => ?_,
    fun hall hk' => ?_, fun fg' h' hc' => ?_⟩
  · rw [hpos', slotAfter_slotAfter, show 1 + (k - 1) = k by omega]
    exact hr.ptr
  · by_cases hj1 : j + 1 < R
    · rw [hshift j hj1, hr.own (j + 1) hj1]
      simp only [decide_eq_decide]
      omega
    · have hslot : slotAfter R s'.pos j = fg.tail := by
        rw [hpos', slotAfter_slotAfter, ← hpos, slotAfter, show s.pos + (1 + j) = s.pos + R by omega,
          Nat.add_mod_right, Nat.mod_eq_of_lt hr.inv.pos_lt]
      rw [RxSys.ahead, hslot]
      simp only [hs', hdl, setAt_same, hd]
      simp only [Bool.false_eq, decide_eq_false_iff_not]
      omega
  · rw [hshift j (by omega)] at heof
    rw [hshift (j + 1) (by omega)]
    exact hr.sof (j + 1) (by omega) heof
  · have hk1 := hk2 f hf h0
    refine ⟨by omega, ?_⟩
    rw [hshift _ (by omega), show k - 1 - 1 + 1 = k - 1 by omega]
    exact (hr.dma f hf h0).2
  · have hc0 : flag (s.ahead R 0).w1 gmacRxw1Eof = true := hcomplete ▸ hall _ rfl
    rw [hshift 0 (by omega)]
    exact hr.sof 0 (by omega) hc0
  · cases h'
    rw [hcomplete] at hc'
    obtain ⟨j, hj, heof⟩ := hr.call fg hfg hc
    cases j with
    | zero => rw [heof] at hc'; cases hc'
    | succ j =>
      refine ⟨j, by omega, ?_⟩
      rw [hshift j (by omega)]
      exact heof

theorem RxRuns.finish {fg : FrameGet} (hr : RxRuns R D k s) (hfg : s.fg = some fg)
    (hmore : fg.more s.q = false) :
    RxRuns R D k { s with q := frameGetEnd s.q fg, fg := none,
                          returned := s.returned ++ fg.rxFrame.toList } := by
  have hpos : RxSys.pos { s with q := frameGetEnd s.q fg, fg := none,
                                 returned := s.returned ++ fg.rxFrame.toList } = s.pos := by
    simp [RxSys.pos, hfg, frameGetEnd]
  have hahead : RxSys.ahead R { s with q := frameGetEnd s.q fg, fg := none,
                                       returned := s.returned ++ fg.rxFrame.toList } = s.ahead R := by
    funext j; simp only [RxSys.ahead, hpos]; rfl
  refine ⟨hr.inv.finish hfg, hr.count, hpos ▸ hr.ptr, hahead ▸ hr.own, hahead ▸ hr.sof,
    hahead ▸ hr.dma, fun _ hk => ?_, fun _ h => (nomatch h)⟩
  have hown := hr.own_zero
  rw [show s.pos = fg.tail by simp [RxSys.pos, hfg], decide_eq_true hk] at hown
  simp only [FrameGet.more, hown, Bool.true_and, Bool.not_eq_false'] at hmore
  rw [hahead]
  exact hr.first (fun fg' h => by rw [hfg] at h; cases h; exact hmore) hk

theorem RxRuns.error (hr : RxRuns R D k s) (hfg : s.fg = none) :
    RxRuns R D 0 { s with q := rxErrorHandler s.q, dma := ⟨0, none⟩ } := by
  obtain ⟨-, ht, -, hspec⟩ := rxErrorHandler_spec s.q
  have hpos : RxSys.pos { s with q := rxErrorHandler s.q, dma := ⟨0, none⟩ } = 0 := by
    simp [RxSys.pos, hfg, ht]
  refine ⟨hr.inv.error, Nat.zero_le _, ?_, fun j hj => ?_, fun _ h => absurd h (by omega),
    fun _ h => (nomatch h), fun _ h => absurd h (by omega), fun _ h => ?_⟩
  · simp [hpos, slotAfter_zero hr.inv.pos]
  · simpa [RxSys.ahead, hpos] using
      (hspec (slotAfter R 0 j) (by rw [hr.inv.len]; exact Nat.mod_lt _ hr.inv.pos)).2.1
  · simp [hfg] at h

/-- Every step keeps the invariant, for the number of descriptors the driver owns after it. -/
theorem RxRuns.step {dataSize : Nat} {e : RxStep} (hr : RxRuns R D k s)
    (h : rxStep dataSize s e = some s') : ∃ k', RxRuns R D k' s' := by
  rcases rxStep_cases h with ⟨_, -, h⟩ | ⟨-, h⟩ | ⟨_, _, -, hfg, hst, rfl⟩ |
    ⟨_, _, -, hfg, hmore, rfl⟩ | ⟨_, -, hfg, hmore, rfl⟩ | ⟨-, hfg, rfl⟩ | ⟨-, -, rfl⟩
  · unfold rxDmaReceive at h
    split at h <;> cases h
    exact ⟨k, hr.dmaFrame _ fun _ h => by cases h; rfl⟩
  · exact ⟨_, hr.dmaWrite h⟩
  · exact ⟨_, hr.scan hfg hst⟩
  · exact ⟨_, hr.turn hfg hmore⟩
  · exact ⟨_, hr.finish hfg hmore⟩
  · exact ⟨_, hr.error hfg⟩
  · exact ⟨k, hr.dmaFrame none nofun⟩

theorem RxRuns.reachable {dataSize : Nat} {s₀ : RxSys} (h₀ : RxRuns R D k s₀)
    (h : RxReachable dataSize s₀ s) : ∃ k', RxRuns R D k' s := by
  induction h with
  | init => exact ⟨k, h₀⟩
  | step e _ hs ih =>
    obtain ⟨_, hr⟩ := ih
    exact hr.step hs

/-! ## A whole `frame_get` call -/

theorem RxRuns.sof_of_scan (hr : RxRuns R D k s) (hfg : s.fg = none) {fuel : Nat}
    (hs : rxFrameScan s.q.rxDescList fuel s.q.rxDescList.tail = true) :
    flag (s.q.rxDescList.buf s.q.rxDescList.tail).w1 gmacRxw1Sof = true := by
  obtain ⟨j, hj, -⟩ := hr.eof_of_scan (hr.inv.len ▸ hr.inv.tail) hs
  have h0 := hr.first (fun _ h => by rw [hfg] at h; cases h) (by omega)
  rwa [hr.ahead_zero, show s.pos = s.q.rxDescList.tail by simp [RxSys.pos, hfg]] at h0

theorem RxRuns.complete_of_stop {fg : FrameGet} (hr : RxRuns R D k s) (hfg : s.fg = some fg)
    (hmore : fg.more s.q = false) : fg.complete = true := by
  by_contra hc
  obtain ⟨j, hj, -⟩ := hr.call fg hfg (Bool.eq_false_iff.mpr hc)
  have hown := hr.own_zero
  rw [show s.pos = fg.tail by simp [RxSys.pos, hfg], decide_eq_true (by omega : 0 < k)] at hown
  simp [FrameGet.more, hown, hc] at hmore

variable {dataSize : Nat}

theorem RxRuns.assemble (hal : ∀ b, Aligned (D b)) (okFrag : Nat → Bool) (s : RxSys) (fuel : Nat)
    (S : FrameGetLoop) (hS : ∃ k, RxRuns R D k (s.inCall S)) (r : Except String FrameGetLoop)
    (h : frameGetAssemble dataSize okFrag fuel S = some r) :
    ∃ S', r = .ok S' ∧ (∃ k, RxRuns R D k (s.inCall S')) ∧ S'.fg.more S'.q = false := by
  refine whileFuel_inv (fun S => ∃ k, RxRuns R D k (s.inCall S))
    (fun S ⟨_, hr⟩ hmore => ⟨S.turn dataSize okFrag, ?_,
      hr.step (rxStep_turn_inCall okFrag hmore)⟩) fuel S hS r h
  have ht := hr.inv.fgTail S.fg rfl
  exact if_pos ((hr.inv.addr _ ht).trans (RxPool.dataOf_aligned (hr.inv.data ▸ hal) _)).symm

/-- From a state of the invariant with no call in progress, a `frame_get` call run with the DMA idle
never fails an `__ASSERT`. -/
theorem RxRuns.frameGet_ne_error {okFrame : Bool} {okFrag : Nat → Bool} {fuel : Nat}
    (hr : RxRuns R D k s) (hal : ∀ b, Aligned (D b)) (hfg : s.fg = none) (e : String) :
    frameGet dataSize okFrame okFrag fuel s.q s.pool ≠ some (.error e) := by
  unfold frameGet
  split
  · simp
  · obtain ⟨_, h, -⟩ := whileFuel_inv (fun _ => True) (fun _ _ _ => ⟨_, rfl, trivial⟩) fuel _
      trivial _ ‹_›
    cases h
  · rename_i t c hscan
    cases c
    · simp
    · have hR : 0 < s.q.rxDescList.len := hr.inv.len ▸ hr.inv.pos
      have hscan' := frameGetScan_len_of_eof hR (hr.inv.len ▸ hr.inv.tail) hscan
      have hstart := (frameGetStart_iff s.q s.pool okFrame _).mpr ⟨rfl, t, hscan'⟩
      have hstep : rxStep dataSize s (.scan okFrame) = some _ := rxStep_scan_inCall hfg hstart
      have h₀ := hr.step hstep
      simp only [Bool.not_true, Bool.false_eq_true, if_false,
        hr.sof_of_scan hfg ((rxFrameScan_iff_whileFuel _ _ _).mpr ⟨t, hscan'⟩)]
      split
      · simp
      · obtain ⟨_, h, -⟩ := RxRuns.assemble hal okFrag s fuel _ h₀ _ ‹_›
        cases h
      · obtain ⟨_, h, ⟨_, hr'⟩, hmore⟩ := RxRuns.assemble hal okFrag s fuel _ h₀ _ ‹_›
        cases h
        simp [hr'.complete_of_stop rfl hmore]

end

/-- From every state the RX side reaches with no `frame_get` in progress, frames the GMAC dropped
included, a `frame_get` call run with the DMA idle fails none of its three `__ASSERT`s. -/
theorem frame_get_assertions_hold {ok : Nat → Bool} {q : RxQueue} {p : RxPool}
    {mem : Nat → List (BitVec 8)} {dataSize : Nat} {s₀ s : RxSys} (okFrame : Bool)
    (okFrag : Nat → Bool) (fuel : Nat) (hR : 0 < q.rxDescList.len)
    (hal : ∀ b, Aligned (p.data b)) (h₀ : rxInit ok q p mem = some s₀)
    (h : RxReachable dataSize s₀ s) (hfg : s.fg = none) :
    ∀ e, frameGet dataSize okFrame okFrag fuel s.q s.pool ≠ some (.error e) := by
  obtain ⟨_, hr⟩ := (RxRuns.init hR h₀).reachable h
  exact hr.frameGet_ne_error hal hfg

theorem frame_get_assertions_hold_after_drop :
    ∃ s₀ s, rxInit (fun _ => true) (staticRxQueue 4) ⟨0, fun b => BitVec.ofNat 32 b <<< 2⟩
        (fun _ => []) = some s₀ ∧
      rxRun 64 s₀ [.receive (List.replicate 70 2), .dma, .drop, .receive (List.replicate 70 1),
        .dma, .dma] = some s ∧ s.fg = none ∧
      ∀ e, frameGet 64 true (fun _ => true) 4 s.q s.pool ≠ some (.error e) := by
  have hrun : ((rxInit (fun _ => true) (staticRxQueue 4) ⟨0, fun b => BitVec.ofNat 32 b <<< 2⟩
      (fun _ => [])).bind fun s => rxRun 64 s [.receive (List.replicate 70 2), .dma, .drop,
        .receive (List.replicate 70 1), .dma, .dma]).map (·.fg) = some none := by
    simp only [rxInit, rxDescriptorsInit, staticRxQueue, List.range, List.range.loop, List.foldlM]
    decide
  obtain ⟨s, hs, hfg⟩ := Option.map_eq_some'.mp hrun
  obtain ⟨s₀, h₀, hs⟩ := Option.bind_eq_some.mp hs
  exact ⟨s₀, s, h₀, hs, hfg, frame_get_assertions_hold true (fun _ => true) 4 (by decide)
    (fun _ => aligned_shiftLeft_two _) h₀ (RxReachable.of_rxRun _ .init hs) hfg⟩

end SamGmac.Rx
