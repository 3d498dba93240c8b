import SamGmac.Rx.Simulation

/-! # The frames `eth_rx` delivers

The receive DMA cuts a frame into buffers of `64 · DRBS` bytes, `DRBS` being
`CONFIG_NET_BUF_DATA_SIZE >> 6`; `frame_get` reads each buffer but the last as
`CONFIG_NET_BUF_DATA_SIZE` bytes long. The two agree when the size is a multiple of 64, and then
the frames `eth_rx` hands on are the frames the DMA finished, in order, each with its bytes, but
for frames dropped for want of a buffer or abandoned by `rx_error_handler`, as long as the GMAC
drops no frame it has started: the buffers it wrote of such a frame stay in the ring, and
`frame_get` joins them to the next frame.
-/

namespace SamGmac.Rx

open SamGmac

/-! ## Frames cut into buffers -/

/-- The buffers of `DS` bytes the DMA fills with a frame of `n` bytes. -/
def piecesOf (dataSize n : Nat) : Nat := (n + dataSize - 1) / dataSize

/-- The pieces `(F, j)`, `j ≥ m`, of the frame `F`: the `j`-th buffer the DMA fills with it. -/
def framePieces (dataSize : Nat) (F : List (BitVec 8)) (m : Nat) : List (List (BitVec 8) × Nat) :=
  (List.range' m (piecesOf dataSize F.length - m)).map (F, ·)

section
variable {dataSize : Nat}

theorem lt_piecesOf (hpos : 0 < dataSize) {j n : Nat} :
    j < piecesOf dataSize n ↔ j * dataSize < n := by
  rw [piecesOf, Nat.lt_iff_add_one_le, Nat.le_div_iff_mul_le hpos, Nat.add_mul, one_mul]
  omega

theorem length_drop_le_iff (hpos : 0 < dataSize) {α : Type} {F : List α} {j : Nat}
    (hj : j < piecesOf dataSize F.length) :
    (F.drop (j * dataSize)).length ≤ dataSize ↔ j + 1 = piecesOf dataSize F.length := by
  have h₁ := (lt_piecesOf hpos).mp hj
  have h₂ := lt_piecesOf hpos (j := j + 1) (n := F.length)
  rw [Nat.add_mul, one_mul] at h₂
  rw [List.length_drop]
  omega

theorem length_le_piecesOf_mul (hpos : 0 < dataSize) (n : Nat) : n ≤ piecesOf dataSize n * dataSize :=
  Nat.le_of_not_lt fun h => Nat.lt_irrefl _ ((lt_piecesOf hpos).mpr h)

theorem framePieces_of_lt {F : List (BitVec 8)} {m : Nat} (h : m < piecesOf dataSize F.length) :
    framePieces dataSize F m = (F, m) :: framePieces dataSize F (m + 1) := by
  rw [framePieces, framePieces, show piecesOf dataSize F.length - m =
    piecesOf dataSize F.length - (m + 1) + 1 by omega]
  rfl

@[simp] theorem framePieces_self (F : List (BitVec 8)) :
    framePieces dataSize F (piecesOf dataSize F.length) = [] := by
  simp [framePieces]

end

/-! ## What the DMA and `frame_get` write -/

theorem rxInitDesc_ownership (len i : Nat) (a : BitVec 32) :
    flag (rxInitDesc len i a).w0 gmacRxw0Ownership = false := by
  unfold rxInitDesc rxFreshDesc
  split <;> simp [flag_rxw0Ownership]

theorem rxStatus_sof (first last : Bool) (n : Nat) :
    flag (rxStatus first last n) gmacRxw1Sof = first := by
  cases first <;> cases last <;> simp [rxStatus, flag_rxw1Sof]

theorem rxStatus_eof (first last : Bool) (n : Nat) :
    flag (rxStatus first last n) gmacRxw1Eof = last := by
  cases first <;> cases last <;> simp [rxStatus, flag_rxw1Eof]

theorem rxStatus_len (first : Bool) {n : Nat} (hn : n < 2 ^ 13) :
    rxStatus first true n &&& gmacRxw1Len = BitVec.ofNat 32 n := by
  ext i
  by_cases h : (i : Nat) < 13
  · cases first <;> simp [rxStatus, h, show (i : Nat) ≠ 14 by omega, show (i : Nat) ≠ 15 by omega]
  · have : n.testBit i = false :=
      Nat.testBit_lt_two_pow (lt_of_lt_of_le hn (Nat.pow_le_pow_right (by omega) (by omega)))
    cases first <;> simp [rxStatus, h, this, BitVec.getLsbD_ofNat]

theorem rxFrameScan_eq_false_of_noEof {l : GmacDescList}
    (h : ∀ i < l.len, flag (l.buf i).w0 gmacRxw0Ownership = true → flag (l.buf i).w1 gmacRxw1Eof = false) :
    ∀ fuel t, t < l.len → rxFrameScan l fuel t = false
  | 0, _, _ => rfl
  | fuel + 1, t, ht => by
    have hR : 0 < l.len := by omega
    simp only [rxFrameScan]
    split
    · rw [h t ht ‹_›, rxFrameScan_eq_false_of_noEof h fuel _ (moduloInc_lt hR), Bool.or_false]
    · rfl

theorem rxBufSize_of_mod {dataSize : Nat} (h : dataSize % 64 = 0) : rxBufSize dataSize = dataSize := by
  unfold rxBufSize; rw [Nat.shiftRight_eq_div_pow]; omega

theorem chainBytes_setAt {p : RxPool} {mem : Nat → List (BitVec 8)} {a : Nat}
    (v : List (BitVec 8)) {fr : List Frag} (h : ∀ f ∈ fr, (p.dataOf f.1).toNat ≠ a) :
    chainBytes p (setAt mem a v) fr = chainBytes p mem fr :=
  List.flatMap_congr fun f hf => by rw [setAt_ne _ _ (h f hf)]

theorem RxPool.toNat_dataOf_ne {p : RxPool} {n : Nat}
    (hD : ∀ b < n, ∀ b' < n, p.data b = p.data b' → b = b') {f f' : BufPtr}
    (hf : f.Issued n) (hf' : f'.Issued n) (hne : f ≠ f') :
    (p.dataOf f).toNat ≠ (p.dataOf f').toNat := by
  obtain ⟨b, hb, rfl⟩ := hf.exists_buf
  obtain ⟨b', hb', rfl⟩ := hf'.exists_buf
  exact fun h => hne (congrArg _ (hD b hb b' hb' (BitVec.eq_of_toNat_eq h)))

theorem RxInv.dmaAddr {R : Nat} {D : Nat → BitVec 32} {s : RxSys} (hi : RxInv R D s)
    (hal : ∀ b, Aligned (D b)) {i : Nat} (h : i < R) :
    ((s.q.rxDescList.buf i).w0 &&& gmacRxw0Addr).toNat = (s.pool.dataOf (s.q.rxFragList.buf i)).toNat := by
  rw [hi.addr i h, RxPool.dataOf_aligned (hi.data ▸ hal)]

theorem frameGetTurn_frame (dataSize : Nat) (okFrag : Bool) (q : RxQueue) (p : RxPool)
    (fg : FrameGet) :
    p.next ≤ (frameGetTurn dataSize okFrag q p fg).2.1.next ∧
    (∀ f, (frameGetTurn dataSize okFrag q p fg).2.1.dataOf f = p.dataOf f) ∧
    (∀ i, i ≠ fg.tail → (frameGetTurn dataSize okFrag q p fg).1.rxFragList.buf i = q.rxFragList.buf i) ∧
    ∃ fr', (frameGetTurn dataSize okFrag q p fg).2.2.1 = fg.next dataSize q fr' ∧
      ∀ x, fr' = some x → ∃ fr, fg.rxFrame = some fr ∧
        x = fr ++ [(q.rxFragList.buf fg.tail, fragLenAt dataSize q fg)] := by
  cases h : fg.rxFrame with
  | none => rw [frameGetTurn_of_none _ h]; exact ⟨le_rfl, fun _ => rfl, fun _ _ => rfl, none, rfl, nofun⟩
  | some fr =>
    cases okFrag
    · rw [frameGetTurn_drop h]; exact ⟨le_rfl, fun _ => rfl, fun _ _ => rfl, none, rfl, nofun⟩
    · rw [frameGetTurn_link h]
      refine ⟨Nat.le_succ _, RxPool.dataOf_next _ _, fun i hi => ?_, _, rfl,
        fun x hx => ⟨fr, rfl, (Option.some.inj hx).symm⟩⟩
      simp [RxQueue.setFrag_buf, hi]

theorem rxStep_next_le {dataSize : Nat} {s s' : RxSys} {e : RxStep}
    (h : rxStep dataSize s e = some s') : s.pool.next ≤ s'.pool.next := by
  rcases rxStep_cases h with ⟨_, -, h⟩ | ⟨-, h⟩ | ⟨_, _, -, -, -, rfl⟩ | ⟨_, _, -, -, -, rfl⟩ |
    ⟨_, -, -, -, rfl⟩ | ⟨-, -, rfl⟩ | ⟨-, -, rfl⟩
  · unfold rxDmaReceive at h; split at h <;> cases h; exact le_rfl
  · obtain ⟨_, _, -, -, rfl⟩ := rxDmaWrite_some h; exact le_rfl
  · exact le_rfl
  · exact (frameGetTurn_frame _ _ _ _ _).1
  all_goals exact le_rfl

theorem rxRun_next_le {dataSize : Nat} :
    ∀ (steps : List RxStep) {s s' : RxSys}, rxRun dataSize s steps = some s' → s.pool.next ≤ s'.pool.next
  | [], _, _, h => by cases h; exact le_rfl
  | e :: steps, s, s', h => by
    simp only [rxRun, List.foldlM_cons, Option.bind_eq_bind, Option.bind_eq_some] at h
    obtain ⟨s₁, h₁, h⟩ := h
    exact (rxStep_next_le h₁).trans (rxRun_next_le steps h)

/-- An invariant every step of a kind keeps, while the buffers handed out have distinct data
pointers, holds at the end of a run of such steps. -/
theorem rxRun_inv {dataSize : Nat} {D : Nat → BitVec 32} (I : RxSys → Prop) (P : RxStep → Prop)
    (hI : ∀ {s s' e}, I s → P e → (∀ b < s.pool.next, ∀ b' < s.pool.next, D b = D b' → b = b') →
      rxStep dataSize s e = some s' → I s') :
    ∀ (steps : List RxStep) {s s' : RxSys}, I s → (∀ e ∈ steps, P e) →
      rxRun dataSize s steps = some s' →
      (∀ b < s'.pool.next, ∀ b' < s'.pool.next, D b = D b' → b = b') → I s'
  | [], _, _, hs, _, h, _ => by cases h; exact hs
  | e :: steps, s, s', hs, he, h, hD => by
    simp only [rxRun, List.foldlM_cons, Option.bind_eq_bind, Option.bind_eq_some] at h
    obtain ⟨s₁, h₁, h⟩ := h
    have hle := (rxStep_next_le h₁).trans (rxRun_next_le steps h)
    exact rxRun_inv I P hI steps (hI hs (he e (List.mem_cons_self _ _))
      (fun b hb b' hb' => hD b (by omega) b' (by omega)) h₁)
      (fun e' h' => he e' (List.mem_cons_of_mem _ h')) h hD

theorem chainBytes_congr_pool {p p' : RxPool} (h : ∀ f, p'.dataOf f = p.dataOf f)
    (mem : Nat → List (BitVec 8)) : chainBytes p' mem = chainBytes p mem := by
  funext fr; simp [chainBytes, h]

theorem fragLenAt_piece {dataSize : Nat} {q : RxQueue} {fg : FrameGet} {F : List (BitVec 8)} {m : Nat}
    (hDS : 0 < dataSize) (hF : F.length ≤ 1518) (hm : m < piecesOf dataSize F.length)
    (hst : (q.rxDescList.buf fg.tail).w1 =
      rxStatus (decide (m = 0)) (decide (m + 1 = piecesOf dataSize F.length)) F.length)
    (hlen : fg.frameLen = BitVec.ofNat 32 (m * dataSize)) :
    (fragLenAt dataSize q fg).toNat = ((F.drop (m * dataSize)).take dataSize).length := by
  have hmF := (lt_piecesOf hDS).mp hm
  have hlast := length_drop_le_iff hDS hm
  rw [List.length_drop] at hlast
  simp only [fragLenAt, hst, rxStatus_eof]
  by_cases hl : m + 1 = piecesOf dataSize F.length
  · rw [decide_eq_true hl, if_pos rfl, rxStatus_len _ (by omega), hlen,
      sub_ofNat_of_le (by rw [BitVec.toNat_ofNat]; omega)]
    simp only [BitVec.toNat_ofNat, List.length_take, List.length_drop]
    omega
  · rw [decide_eq_false hl]
    simp only [Bool.false_eq_true, if_false, BitVec.toNat_ofNat, List.length_take, List.length_drop]
    omega

theorem chainBytes_piece {dataSize : Nat} {p : RxPool} {mem : Nat → List (BitVec 8)} {fr : List Frag}
    {F : List (BitVec 8)} {m : Nat} {f : BufPtr} {len : BitVec 32}
    (hch : chainBytes p mem fr = F.take (m * dataSize))
    (hdat : (F.drop (m * dataSize)).take dataSize <+: mem (p.dataOf f).toNat)
    (hlen : len.toNat = ((F.drop (m * dataSize)).take dataSize).length) :
    chainBytes p mem (fr ++ [(f, len)]) = F.take ((m + 1) * dataSize) := by
  simp only [chainBytes, List.flatMap_append, List.flatMap_cons, List.flatMap_nil, List.append_nil]
  rw [← chainBytes, hch, hlen, ← List.prefix_iff_eq_take.mp hdat, ← List.take_add, Nat.succ_mul]

/-! ## The frames in the ring -/

/-- The DMA's frames as the driver has taken them: those it is done with (returned, dropped or
abandoned), the one a `frame_get` call is taking with the buffers it has taken, and the complete
frames still in the ring, each in the order the DMA completed them. -/
structure RxGhost where
  done : List (List (BitVec 8))
  cur : Option (List (BitVec 8) × Nat)
  pend : List (List (BitVec 8))

/-- The pieces in the descriptors the driver owns, from its position on: the rest of the frame
a `frame_get` call is taking, the complete frames, then what the DMA has written of the frame it
is receiving. -/
def RxGhost.pieces (dataSize : Nat) (g : RxGhost) (dma : Option (List (BitVec 8) × Nat)) :
    List (List (BitVec 8) × Nat) :=
  (g.cur.map fun c => framePieces dataSize c.1 c.2).getD [] ++
    g.pend.flatMap (framePieces dataSize · 0) ++
    (dma.map fun f => (List.range (f.2 / dataSize)).map (f.1, ·)).getD []

/-- Where the driver reads next: the tail of a `frame_get` call in progress, else the queue's. -/
def RxSys.pos (s : RxSys) : Nat := (s.fg.map (·.tail)).getD s.q.rxDescList.tail

theorem RxInv.pos_lt {R : Nat} {D : Nat → BitVec 32} {s : RxSys} (hi : RxInv R D s) : s.pos < R := by
  unfold RxSys.pos
  cases h : s.fg with
  | none => simpa using hi.len ▸ hi.tail
  | some fg => simpa using hi.fgTail fg h

/-- Descriptor `i` holds the piece `x = (F, j)` as the DMA wrote it: the status word of `F`'s
`j`-th buffer, and the piece's bytes at the start of the buffer of slot `i`. -/
def RxSys.PieceAt (dataSize : Nat) (s : RxSys) (i : Nat) (x : List (BitVec 8) × Nat) : Prop :=
  (s.q.rxDescList.buf i).w1 =
      rxStatus (decide (x.2 = 0)) (decide (x.2 + 1 = piecesOf dataSize x.1.length)) x.1.length ∧
    (x.1.drop (x.2 * dataSize)).take dataSize <+: s.mem (s.pool.dataOf (s.q.rxFragList.buf i)).toNat

/-- The invariant of the RX data path, for a ring of `R` descriptors: the ring invariant; the
DMA's completed frames split as `g` says; the frames returned, read from their buffers, among
those the driver is done with, in order; and from the driver's position the descriptors it owns
are exactly the next `k` slots, up to the DMA's pointer, each holding its piece. -/
structure RxFlow (dataSize R : Nat) (D : Nat → BitVec 32) (g : RxGhost) (s : RxSys) : Prop where
  inv : RxInv R D s
  completed : s.completed = g.done ++ (g.cur.map (·.1)).toList ++ g.pend
  delivered : (s.returned.map (chainBytes s.pool s.mem)).Sublist g.done
  count : (g.pieces dataSize s.dma.frame).length ≤ R
  ptr : s.dma.ptr = slotAfter R s.pos (g.pieces dataSize s.dma.frame).length
  own : ∀ j < R, flag (s.q.rxDescList.buf (slotAfter R s.pos j)).w0 gmacRxw0Ownership =
    decide (j < (g.pieces dataSize s.dma.frame).length)
  piece : ∀ j < (g.pieces dataSize s.dma.frame).length,
    s.PieceAt dataSize (slotAfter R s.pos j) ((g.pieces dataSize s.dma.frame).getD j ([], 0))
  sizes : ∀ F ∈ (g.cur.map (·.1)).toList ++ g.pend, 0 < F.length ∧ F.length ≤ 1518
  dma : ∀ P off, s.dma.frame = some (P, off) →
    0 < P.length ∧ P.length ≤ 1518 ∧ off % dataSize = 0 ∧ off < P.length
  call : ∀ fg, s.fg = some fg → ∃ F m, g.cur = some (F, m) ∧ m ≤ piecesOf dataSize F.length ∧
    fg.complete = decide (m = piecesOf dataSize F.length) ∧
    (m < piecesOf dataSize F.length → fg.frameLen = BitVec.ofNat 32 (m * dataSize)) ∧
    ∀ fr, fg.rxFrame = some fr → chainBytes s.pool s.mem fr = F.take (m * dataSize)
  idle : s.fg = none → g.cur = none

theorem RxGhost.pieces_dma_more {dataSize : Nat} (g : RxGhost) (P : List (BitVec 8)) (off : Nat)
    (hDS : 0 < dataSize) :
    g.pieces dataSize (some (P, off + dataSize)) =
      g.pieces dataSize (some (P, off)) ++ [(P, off / dataSize)] := by
  simp [RxGhost.pieces, Nat.add_div_right _ hDS, List.range_succ]

theorem RxGhost.pieces_dma_last {dataSize : Nat} (g : RxGhost) {P : List (BitVec 8)} {off : Nat}
    (h : off / dataSize + 1 = piecesOf dataSize P.length) :
    ({ g with pend := g.pend ++ [P] } : RxGhost).pieces dataSize none =
      g.pieces dataSize (some (P, off)) ++ [(P, off / dataSize)] := by
  simp [RxGhost.pieces, framePieces, ← h, ← List.range_eq_range', List.range_succ]

/-! ## Each step keeps the invariant -/

theorem RxFlow.init {ok : Nat → Bool} {q : RxQueue} {p : RxPool} {mem : Nat → List (BitVec 8)}
    {dataSize : Nat} {s : RxSys} (hR : 0 < q.rxDescList.len) (h : rxInit ok q p mem = some s) :
    RxFlow dataSize q.rxDescList.len p.data ⟨[], none, []⟩ s := by
  have hi := RxInv.init hR h
  obtain ⟨h0, rfl⟩ := rxInit_eq h
  obtain ⟨-, hl, ht, -, hd⟩ := rxDescriptorsInit_ok h0
  refine ⟨hi, rfl, by simp, by simp [RxGhost.pieces], ?_, fun j hj => ?_, fun j hj => ?_,
    by simp, fun _ _ h => (nomatch h), fun _ h => (nomatch h), fun _ => rfl⟩
  · simp [RxGhost.pieces, RxSys.pos, ht, slotAfter_zero hR]
  · simp only [RxSys.pos, RxGhost.pieces, ht, Option.map_none', Option.getD_none]
    rw [(hd (slotAfter _ 0 j) (Nat.mod_lt _ hR)).2]
    simp [rxInitDesc_ownership]
  · simp [RxGhost.pieces] at hj

section
variable {dataSize R : Nat} {D : Nat → BitVec 32} {g : RxGhost} {s s' : RxSys}

theorem RxFlow.receive {bytes : List (BitVec 8)} (hf : RxFlow dataSize R D g s)
    (h : rxDmaReceive bytes s = some s') : RxFlow dataSize R D g s' := by
  have hi := hf.inv.receive h
  unfold rxDmaReceive at h
  split at h
  · rename_i hc
    cases h
    simp only [Bool.and_eq_true, Option.isNone_iff_eq_none, decide_eq_true_eq] at hc
    obtain ⟨⟨hnone, hlen⟩, hmax⟩ := hc
    have hp : g.pieces dataSize (some (bytes, 0)) = g.pieces dataSize s.dma.frame := by
      simp [RxGhost.pieces, hnone]
    refine ⟨hi, hf.completed, hf.delivered, hp ▸ hf.count, hp ▸ hf.ptr, hp ▸ hf.own, hp ▸ hf.piece,
      hf.sizes, fun P off h => ?_, hf.call, hf.idle⟩
    cases h
    exact ⟨hlen, hmax, Nat.zero_mod _, hlen⟩
  · cases h

theorem RxFlow.error (hf : RxFlow dataSize R D g s) (hfg : s.fg = none) :
    RxFlow dataSize R D ⟨g.done ++ g.pend, none, []⟩
      { s with q := rxErrorHandler s.q, dma := ⟨0, none⟩ } := by
  obtain ⟨-, ht, -, hspec⟩ := rxErrorHandler_spec s.q
  have hpos : RxSys.pos { s with q := rxErrorHandler s.q, dma := ⟨0, none⟩ } = 0 := by
    simp [RxSys.pos, hfg, ht]
  refine ⟨hf.inv.error, ?_, hf.delivered.trans (List.sublist_append_left _ _),
    by simp [RxGhost.pieces], ?_, fun j hj => ?_, fun j hj => ?_, by simp, fun _ _ h => (nomatch h),
    fun _ h => ?_, fun _ => rfl⟩
  · simp [hf.completed, hf.idle hfg]
  · simp [RxGhost.pieces, hpos, slotAfter_zero hf.inv.pos]
  · simpa [RxGhost.pieces, hpos] using
      (hspec (slotAfter R 0 j) (by rw [hf.inv.len]; exact Nat.mod_lt _ hf.inv.pos)).2.1
  · simp [RxGhost.pieces] at hj
  · simp [hfg] at h

theorem RxFlow.noEof (hf : RxFlow dataSize R D g s) (hDS : 0 < dataSize) (hcur : g.cur = none)
    (hpend : g.pend = []) :
    ∀ i < s.q.rxDescList.len, flag (s.q.rxDescList.buf i).w0 gmacRxw0Ownership = true →
      flag (s.q.rxDescList.buf i).w1 gmacRxw1Eof = false := by
  intro i hi hown
  rw [hf.inv.len] at hi
  rw [← slotAfter_back hi hf.inv.pos_lt] at hown ⊢
  have hj := Nat.mod_lt (i + R - s.pos) hf.inv.pos
  rw [hf.own _ hj, decide_eq_true_eq] at hown
  rw [(hf.piece _ hown).1, rxStatus_eof]
  cases hd : s.dma.frame with
  | none => simp [RxGhost.pieces, hcur, hpend, hd] at hown
  | some f =>
    obtain ⟨P, off⟩ := f
    obtain ⟨-, -, hoff, hlt⟩ := hf.dma P off hd
    have hw : off / dataSize < piecesOf dataSize P.length :=
      (lt_piecesOf hDS).mpr (by rwa [Nat.div_mul_cancel (Nat.dvd_of_mod_eq_zero hoff)])
    simp only [RxGhost.pieces, hcur, hpend, hd, Option.map_none', Option.getD_none, Option.map_some',
      Option.getD_some, List.flatMap_nil, List.nil_append, List.length_map, List.length_range] at hown ⊢
    simp [hown]
    omega

theorem RxFlow.pend_of_scan (hf : RxFlow dataSize R D g s) (hDS : 0 < dataSize) (hfg : s.fg = none)
    (hs : rxFrameScan s.q.rxDescList s.q.rxDescList.len s.q.rxDescList.tail = true) :
    ∃ F pend, g.pend = F :: pend := by
  cases hp : g.pend with
  | cons F pend => exact ⟨F, pend, rfl⟩
  | nil =>
    rw [rxFrameScan_eq_false_of_noEof (hf.noEof hDS (hf.idle hfg) hp) _ _
      (hf.inv.len ▸ hf.inv.tail)] at hs
    cases hs

theorem RxFlow.scan {okFrame : Bool} {fg : FrameGet} (hf : RxFlow dataSize R D g s)
    (hDS : 0 < dataSize) (hfg : s.fg = none) (h : frameGetStart s.q okFrame = some fg) :
    ∃ g', g'.done = g.done ∧ RxFlow dataSize R D g' { s with fg := some fg } := by
  have hcur := hf.idle hfg
  have hs : rxFrameScan s.q.rxDescList s.q.rxDescList.len s.q.rxDescList.tail = true := by
    by_contra hs; simp [frameGetStart, hs] at h
  obtain ⟨F, pend, hp⟩ := hf.pend_of_scan hDS hfg hs
  obtain ⟨ht, hfr, hlen, hcomp⟩ := frameGetStart_some h
  have hF := hf.sizes F (by simp [hp])
  have hpcs : 0 < piecesOf dataSize F.length := (lt_piecesOf hDS).mpr (by simpa using hF.1)
  refine ⟨⟨g.done, some (F, 0), pend⟩, rfl, ?_⟩
  have hpieces : (⟨g.done, some (F, 0), pend⟩ : RxGhost).pieces dataSize s.dma.frame =
      g.pieces dataSize s.dma.frame := by
    simp [RxGhost.pieces, hcur, hp]
  have hpos : RxSys.pos { s with fg := some fg } = s.pos := by simp [RxSys.pos, hfg, ht]
  refine ⟨hf.inv.scan hfg h, ?_, hf.delivered, hpieces ▸ hf.count, hpieces ▸ hpos ▸ hf.ptr,
    hpieces ▸ hpos ▸ hf.own, hpieces ▸ hpos ▸ hf.piece, fun F' hF' => hf.sizes F' ?_, hf.dma,
    fun fg' h' => ?_, fun h' => (nomatch h')⟩
  · simp [hf.completed, hcur, hp]
  · simpa [hp, hcur] using hF'
  · cases h'
    refine ⟨F, 0, rfl, Nat.zero_le _, by simp [hcomp]; omega, fun _ => by simp [hlen], fun fr h' => ?_⟩
    simp [hfr fr h', chainBytes]

theorem RxFlow.taken_of_stop {fg : FrameGet} (hf : RxFlow dataSize R D g s) (hDS : 0 < dataSize)
    (hfg : s.fg = some fg) (hmore : fg.more s.q = false) :
    ∃ F, g.cur = some (F, piecesOf dataSize F.length) ∧ fg.complete = true ∧
      ∀ fr, fg.rxFrame = some fr → chainBytes s.pool s.mem fr = F := by
  obtain ⟨F, m, hcur, hm, hcomp, -, hchain⟩ := hf.call fg hfg
  have hpos : s.pos = fg.tail := by simp [RxSys.pos, hfg]
  have hmF : m = piecesOf dataSize F.length := by
    by_contra hne
    have hk : 0 < (g.pieces dataSize s.dma.frame).length := by
      simp [RxGhost.pieces, hcur, framePieces_of_lt (lt_of_le_of_ne hm hne)]
    have hown := hf.own 0 hf.inv.pos
    rw [slotAfter_zero hf.inv.pos_lt, hpos] at hown
    simp [FrameGet.more, hown, hk, hcomp, hne] at hmore
  subst hmF
  refine ⟨F, hcur, by simp [hcomp], fun fr hr => ?_⟩
  rw [hchain fr hr, List.take_of_length_le (length_le_piecesOf_mul hDS F.length)]

theorem RxFlow.finish {fg : FrameGet} (hf : RxFlow dataSize R D g s) (hDS : 0 < dataSize)
    (hfg : s.fg = some fg) (hmore : fg.more s.q = false) :
    ∃ F, (∀ fr, fg.rxFrame = some fr → chainBytes s.pool s.mem fr = F) ∧
      RxFlow dataSize R D ⟨g.done ++ [F], none, g.pend⟩
        { s with q := frameGetEnd s.q fg, fg := none, returned := s.returned ++ fg.rxFrame.toList } := by
  obtain ⟨F, hcur, -, hF⟩ := hf.taken_of_stop hDS hfg hmore
  refine ⟨F, hF, ?_⟩
  have hpieces : (⟨g.done ++ [F], none, g.pend⟩ : RxGhost).pieces dataSize s.dma.frame =
      g.pieces dataSize s.dma.frame := by
    simp [RxGhost.pieces, hcur]
  have hpos' : RxSys.pos { s with q := frameGetEnd s.q fg, fg := none,
                                  returned := s.returned ++ fg.rxFrame.toList } = s.pos := by
    simp [RxSys.pos, hfg, frameGetEnd]
  refine ⟨hf.inv.finish hfg, ?_, ?_, hpieces ▸ hf.count, hpieces ▸ hpos' ▸ hf.ptr,
    hpieces ▸ hpos' ▸ hf.own, hpieces ▸ hpos' ▸ hf.piece, fun F' hF' => hf.sizes F' ?_, hf.dma,
    fun _ h => (nomatch h), fun _ => rfl⟩
  · simp [hf.completed, hcur]
  · cases hr : fg.rxFrame with
    | none => simpa using hf.delivered.trans (List.sublist_append_left _ _)
    | some fr => simpa [hF fr hr] using hf.delivered.append_right [F]
  · simp [hcur] at hF' ⊢; exact .inr hF'

theorem RxInv.chainBytes_dmaWritten (hi : RxInv R D s) (hal : ∀ b, Aligned (D b))
    (hD : ∀ b < s.pool.next, ∀ b' < s.pool.next, D b = D b' → b = b') (P : List (BitVec 8))
    (off : Nat) :
    ∀ fr ∈ s.outFrames, chainBytes s.pool (s.dmaWritten dataSize P off).mem fr =
      chainBytes s.pool s.mem fr := fun fr hfr => by
  have hD' : ∀ b < s.pool.next, ∀ b' < s.pool.next, s.pool.data b = s.pool.data b' → b = b' := by
    rw [hi.data]; exact hD
  simp only [RxSys.dmaWritten]
  refine chainBytes_setAt _ fun f hf' => ?_
  rw [hi.dmaAddr hal hi.dmaPtr]
  obtain ⟨hiss, hne⟩ := hi.out fr hfr f hf'
  exact RxPool.toNat_dataOf_ne hD' hiss (hi.slot _ hi.dmaPtr) fun h' => hne _ hi.dmaPtr h'.symm

theorem RxFlow.dmaWrite (hf : RxFlow dataSize R D g s) (hDS : 0 < dataSize) (hds : dataSize % 64 = 0)
    (hD : ∀ b < s.pool.next, ∀ b' < s.pool.next, D b = D b' → b = b') (hal : ∀ b, Aligned (D b))
    (h : rxDmaWrite dataSize s = some s') : ∃ g', g'.done = g.done ∧ RxFlow dataSize R D g' s' := by
  have hi' := hf.inv.dma h
  obtain ⟨P, off, hd, hown, rfl⟩ := rxDmaWrite_some h
  obtain ⟨hP0, hP, hoff, hlt⟩ := hf.dma P off hd
  have hR := hf.inv.pos
  have hptr := hf.inv.dmaPtr
  have hD' : ∀ b < s.pool.next, ∀ b' < s.pool.next, s.pool.data b = s.pool.data b' → b = b' := by
    rw [hf.inv.data]; exact hD
  have hk : (g.pieces dataSize s.dma.frame).length < R := by
    refine lt_of_le_of_ne hf.count fun hk => ?_
    have h0 := hf.own 0 hR
    rw [show slotAfter R s.pos 0 = s.dma.ptr by rw [hf.ptr, hk]; simp [slotAfter], hown, hk] at h0
    simp at h0; omega
  obtain ⟨w, rfl⟩ : ∃ w, off = w * dataSize :=
    ⟨off / dataSize, (Nat.div_mul_cancel (Nat.dvd_of_mod_eq_zero hoff)).symm⟩
  have hw : w < piecesOf dataSize P.length := (lt_piecesOf hDS).mpr hlt
  have hlast : P.length ≤ dataSize + w * dataSize ↔ w + 1 = piecesOf dataSize P.length := by
    rw [← length_drop_le_iff hDS hw, List.length_drop]; omega
  refine ⟨⟨g.done, g.cur, if w + 1 = piecesOf dataSize P.length then g.pend ++ [P] else g.pend⟩, rfl,
    ?_⟩
  set s' := s.dmaWritten dataSize P (w * dataSize) with hs'
  set k := (g.pieces dataSize s.dma.frame).length with hkdef
  have hpieces : RxGhost.pieces dataSize
      ⟨g.done, g.cur, if w + 1 = piecesOf dataSize P.length then g.pend ++ [P] else g.pend⟩
      s'.dma.frame = g.pieces dataSize s.dma.frame ++ [(P, w)] := by
    simp only [hs', RxSys.dmaWritten, rxBufSize_of_mod hds, hd]
    by_cases hl : w + 1 = piecesOf dataSize P.length
    · have := RxGhost.pieces_dma_last g
        (show w * dataSize / dataSize + 1 = piecesOf dataSize P.length by
          rw [Nat.mul_div_cancel _ hDS, hl])
      rw [Nat.mul_div_cancel _ hDS] at this
      simpa [hl, hlast.mpr hl] using this
    · simpa [hl, mt hlast.mp hl, Nat.mul_div_cancel _ hDS] using
        RxGhost.pieces_dma_more g P (w * dataSize) hDS
  have hpos : s'.pos = s.pos := rfl
  have hptr' : s'.dma.ptr = slotAfter R s.pos (k + 1) := by
    rw [← moduloInc_slotAfter hR, ← hf.ptr, moduloInc_apply]
    simp only [hs', RxSys.dmaWritten, hf.inv.wrap _ hptr, decide_eq_true_eq]
    split_ifs <;> omega
  have hslot : ∀ j < R, j ≠ k → slotAfter R s.pos j ≠ s.dma.ptr := fun j hj hjk h =>
    hjk (slotAfter_inj hj hk (h.trans hf.ptr))
  have hdesc : ∀ i, i ≠ s.dma.ptr → s'.q.rxDescList.buf i = s.q.rxDescList.buf i :=
    fun i h => setAt_ne _ _ h
  have hmem : ∀ i < R, i ≠ s.dma.ptr →
      s'.mem (s'.pool.dataOf (s'.q.rxFragList.buf i)).toNat =
        s.mem (s.pool.dataOf (s.q.rxFragList.buf i)).toNat := fun i hi h => by
    simp only [hs', RxSys.dmaWritten, RxQueue.setDesc_fragList]
    rw [hf.inv.dmaAddr hal hptr, setAt_ne]
    exact RxPool.toNat_dataOf_ne hD' (hf.inv.slot i hi) (hf.inv.slot _ hptr)
      fun h' => h (hf.inv.distinct i hi _ hptr h')
  have hchain : ∀ fr ∈ s.outFrames, chainBytes s.pool s'.mem fr = chainBytes s.pool s.mem fr :=
    hf.inv.chainBytes_dmaWritten hal hD P (w * dataSize)
  have hnew : s'.PieceAt dataSize s.dma.ptr (P, w) := by
    refine ⟨?_, ?_⟩
    · simp only [hs', RxSys.dmaWritten, RxQueue.setDesc, setAt_same, rxBufSize_of_mod hds]
      congr 1 <;> simp [hlast, Nat.mul_eq_zero, hDS.ne']
    · simp only [hs', RxSys.dmaWritten, RxQueue.setDesc_fragList, rxBufSize_of_mod hds]
      rw [hf.inv.dmaAddr hal hptr, setAt_same]
      exact List.prefix_append _ _
  refine ⟨hi', ?_, ?_, by rw [hpieces]; simpa using hk, by rw [hpieces, hpos]; simpa using hptr',
    fun j hj => ?_, fun j hj => ?_, fun F hF => ?_, fun P' off' h' => ?_, fun fg hfg => ?_, hf.idle⟩
  · simp only [hs', RxSys.dmaWritten, rxBufSize_of_mod hds, hf.completed]
    by_cases hl : w + 1 = piecesOf dataSize P.length <;> simp [hl, hlast]
  · have : s'.returned.map (chainBytes s'.pool s'.mem) = s.returned.map (chainBytes s.pool s.mem) :=
      List.map_congr_left fun fr hfr => hchain fr (List.mem_append_left _ (List.mem_append_left _ hfr))
    exact this ▸ hf.delivered
  · rw [hpieces, hpos, List.length_append, List.length_singleton]
    by_cases hjk : j = k
    · subst hjk
      rw [← hf.ptr]
      simp [hs', RxSys.dmaWritten, RxQueue.setDesc, flag_rxw0Ownership]
    · rw [hdesc _ (hslot j hj hjk), hf.own j hj]
      simp only [decide_eq_decide]
      omega
  · rw [hpieces, List.length_append, List.length_singleton] at hj
    rw [hpieces, hpos]
    by_cases hjk : j = k
    · subst hjk
      simpa [← hf.ptr] using hnew
    · have hjk' : j < k := by omega
      have hjR : j < R := by omega
      obtain ⟨hst, hdat⟩ := hf.piece j hjk'
      simp only [List.getD_eq_getElem?_getD, List.getElem?_append_left hjk'] at hst hdat ⊢
      refine ⟨(congrArg GmacDesc.w1 (hdesc _ (hslot j hjR hjk))).trans hst, ?_⟩
      rw [hmem (slotAfter R s.pos j) (Nat.mod_lt _ hR) (hslot j hjR hjk)]
      exact hdat
  · by_cases hl : w + 1 = piecesOf dataSize P.length <;> simp [hl] at hF
    · rcases hF with hF | hF | rfl
      · exact hf.sizes F (by simp [hF])
      · exact hf.sizes F (by simp [hF])
      · exact ⟨hP0, hP⟩
    · exact hf.sizes F (by simpa using hF)
  · simp only [hs', RxSys.dmaWritten, rxBufSize_of_mod hds] at h'
    split_ifs at h' with hl
    cases h'
    simp only [decide_eq_true_eq, not_le, List.length_drop] at hl
    exact ⟨hP0, hP, by simp [Nat.add_mod_right, hoff], by omega⟩
  · obtain ⟨F, m, hcur, hm, hcomp, hlen, hch⟩ := hf.call fg hfg
    exact ⟨F, m, hcur, hm, hcomp, hlen, fun fr hfr =>
      (hchain fr (by simp [RxSys.outFrames, show s.fg = some fg from hfg, hfr])).trans (hch fr hfr)⟩

theorem RxFlow.turn {okFrag : Bool} {fg : FrameGet} (hf : RxFlow dataSize R D g s)
    (hDS : 0 < dataSize) (hfg : s.fg = some fg) (hmore : fg.more s.q = true) :
    ∃ g', g'.done = g.done ∧ RxFlow dataSize R D g'
      { s with q := (frameGetTurn dataSize okFrag s.q s.pool fg).1,
               pool := (frameGetTurn dataSize okFrag s.q s.pool fg).2.1,
               fg := some (frameGetTurn dataSize okFrag s.q s.pool fg).2.2.1,
               released := s.released ++ (frameGetTurn dataSize okFrag s.q s.pool fg).2.2.2.toList } := by
  obtain ⟨F, m, hcur, hm, hcomp, hlen, hch⟩ := hf.call fg hfg
  have hR := hf.inv.pos
  have ht := hf.inv.fgTail fg hfg
  have hpos : s.pos = fg.tail := by simp [RxSys.pos, hfg]
  simp only [FrameGet.more, Bool.and_eq_true, Bool.not_eq_true'] at hmore
  obtain ⟨hown, hc⟩ := hmore
  have hmlt : m < piecesOf dataSize F.length :=
    lt_of_le_of_ne hm fun h => by simp [h, hc] at hcomp
  refine ⟨{ g with cur := some (F, m + 1) }, rfl, ?_⟩
  have hpieces : g.pieces dataSize s.dma.frame =
      (F, m) :: RxGhost.pieces dataSize { g with cur := some (F, m + 1) } s.dma.frame := by
    simp [RxGhost.pieces, hcur, framePieces_of_lt hmlt]
  obtain ⟨hst, hdat⟩ : s.PieceAt dataSize fg.tail (F, m) := by
    simpa [hpieces, ← hpos, slotAfter_zero hf.inv.pos_lt] using hf.piece 0 (by simp [hpieces])
  obtain ⟨d, hd, hdl, htail⟩ := frameGetTurn_gives_back dataSize okFrag s.q s.pool fg
  obtain ⟨-, hpool, hfrag, fr', hfg', hfr'⟩ := frameGetTurn_frame dataSize okFrag s.q s.pool fg
  set r := frameGetTurn dataSize okFrag s.q s.pool fg with hr
  set k := (RxGhost.pieces dataSize { g with cur := some (F, m + 1) } s.dma.frame).length with hk
  have hkR : k + 1 ≤ R := by simpa [hpieces] using hf.count
  have hnp : RxSys.pos { s with q := r.1, pool := r.2.1, fg := some r.2.2.1,
                                released := s.released ++ r.2.2.2.toList } = slotAfter R s.pos 1 := by
    have := @moduloInc_slotAfter R fg.tail 0 hR
    rw [slotAfter_zero ht] at this
    simpa [RxSys.pos, htail, hf.inv.len, hfg] using this
  have h0 : slotAfter R s.pos 0 = fg.tail := by rw [slotAfter_zero hf.inv.pos_lt, hpos]
  have hne : ∀ j, j + 1 < R → slotAfter R s.pos (j + 1) ≠ fg.tail := fun j hj h => by
    have := slotAfter_inj hj hR (h.trans h0.symm)
    omega
  simp only at hst hdat
  have hF := (hf.sizes F (by simp [hcur])).2
  have hbuf : r.1.rxDescList.buf = setAt s.q.rxDescList.buf fg.tail d := by rw [hdl]
  refine ⟨hf.inv.turn hfg, by simp [hf.completed, hcur], ?_, (Nat.le_succ k).trans hkR, ?_,
    fun j hj => ?_, fun j hj => ?_, fun F' hF' => hf.sizes F' (by simpa [hcur] using hF'),
    hf.dma, fun fg' h' => ?_, nofun⟩
  · rw [chainBytes_congr_pool hpool]; exact hf.delivered
  · rw [hnp, slotAfter_slotAfter, hf.ptr, hpieces, List.length_cons, Nat.add_comm]
  · rw [hnp, slotAfter_slotAfter, hbuf]
    by_cases hj1 : 1 + j < R
    · rw [Nat.add_comm 1 j] at hj1 ⊢
      rw [setAt_ne _ _ (hne j hj1), hf.own (j + 1) hj1, hpieces, List.length_cons]
      simp only [decide_eq_decide]
      omega
    · rw [show slotAfter R s.pos (1 + j) = fg.tail by
        rw [← h0, slotAfter, slotAfter, show 1 + j = R by omega, Nat.add_mod_right, Nat.add_zero],
        setAt_same, hd]
      simp only [Bool.false_eq, decide_eq_false_iff_not]
      omega
  · have hjk : j < k := hj
    have hj1 : j + 1 < R := by omega
    obtain ⟨hst', hdat'⟩ := hf.piece (j + 1) (by rw [hpieces, List.length_cons]; omega)
    rw [hpieces, List.getD_cons_succ] at hst' hdat'
    rw [hnp, slotAfter_slotAfter, Nat.add_comm 1 j]
    refine ⟨?_, ?_⟩
    · rw [hbuf, setAt_ne _ _ (hne j hj1)]; exact hst'
    · rw [hfrag _ (hne j hj1), hpool]; exact hdat'
  · cases h'
    rw [hfg']
    refine ⟨F, m + 1, rfl, hmlt, ?_, fun hlt => ?_, fun x hx => ?_⟩
    · simp [FrameGet.next, hst, rxStatus_eof]
    · simp only [FrameGet.next, fragLenAt, hst, rxStatus_eof,
        decide_eq_false (by omega : ¬m + 1 = piecesOf dataSize F.length), hlen hmlt,
        Bool.false_eq_true, if_false, BitVec.ofNat_add_ofNat, Nat.succ_mul]
    · obtain ⟨fr, hfr, rfl⟩ := hfr' x hx
      rw [chainBytes_congr_pool hpool]
      exact chainBytes_piece (hch fr hfr) hdat (fragLenAt_piece hDS hF hmlt hst (hlen hmlt))

/-- Every step but a drop keeps the invariant, for the split of the completed frames it leads to. -/
theorem RxFlow.step {e : RxStep} (hf : RxFlow dataSize R D g s) (hDS : 0 < dataSize)
    (hds : dataSize % 64 = 0) (hD : ∀ b < s.pool.next, ∀ b' < s.pool.next, D b = D b' → b = b')
    (hal : ∀ b, Aligned (D b)) (he : e ≠ .drop) (h : rxStep dataSize s e = some s') :
    ∃ g', RxFlow dataSize R D g' s' := by
  rcases rxStep_cases h with ⟨_, -, h⟩ | ⟨-, h⟩ | ⟨_, _, -, hfg, hst, rfl⟩ |
    ⟨_, _, -, hfg, hmore, rfl⟩ | ⟨_, -, hfg, hmore, rfl⟩ | ⟨-, hfg, rfl⟩ | ⟨rfl, -⟩
  · exact ⟨g, hf.receive h⟩
  · exact (hf.dmaWrite hDS hds hD hal h).imp fun _ h => h.2
  · exact (hf.scan hDS hfg hst).imp fun _ h => h.2
  · exact (hf.turn hDS hfg hmore).imp fun _ h => h.2
  · obtain ⟨_, -, h⟩ := hf.finish hDS hfg hmore
    exact ⟨_, h⟩
  · exact ⟨_, hf.error hfg⟩
  · exact absurd rfl he

end

/-! ## The frames `frame_get` returns -/

/-- With `CONFIG_NET_BUF_DATA_SIZE` a positive multiple of 64, along every run in which the GMAC
drops no frame, the frames `frame_get` returns, read from their buffers, are received frames, in the
order received. -/
theorem frame_get_returns_received_frames {ok : Nat → Bool} {q : RxQueue} {p : RxPool}
    {mem : Nat → List (BitVec 8)} {dataSize : Nat} {s₀ s : RxSys} {steps : List RxStep}
    (hR : 0 < q.rxDescList.len) (hDS : 0 < dataSize) (hds : dataSize % 64 = 0)
    (hal : ∀ b, Aligned (p.data b)) (h₀ : rxInit ok q p mem = some s₀)
    (hsteps : ∀ e ∈ steps, e ≠ .drop) (h : rxRun dataSize s₀ steps = some s)
    (hD : ∀ b < s.pool.next, ∀ b' < s.pool.next, p.data b = p.data b' → b = b') :
    (s.returned.map (chainBytes s.pool s.mem)).Sublist s.completed := by
  obtain ⟨g, hg⟩ := rxRun_inv (fun s => ∃ g, RxFlow dataSize q.rxDescList.len p.data g s) (· ≠ .drop)
    (fun ⟨_, hf⟩ he hD h => hf.step hDS hds hD hal he h) steps ⟨_, RxFlow.init hR h₀⟩ hsteps h hD
  rw [hg.completed, List.append_assoc]
  exact hg.delivered.trans (List.sublist_append_left _ _)

theorem frame_get_returns_received_frames_after_frame :
    ∃ s₀ s, rxInit (fun _ => true) (staticRxQueue 4) ⟨0, fun b => BitVec.ofNat 32 b <<< 2⟩
        (fun _ => []) = some s₀ ∧
      rxRun 64 s₀ [.receive (List.replicate 70 1), .dma, .dma, .scan true, .turn true,
        .turn true, .finish] = some s ∧ s.returned.length = 1 ∧
      (s.returned.map (chainBytes s.pool s.mem)).Sublist s.completed := by
  have hrun : ((rxInit (fun _ => true) (staticRxQueue 4) ⟨0, fun b => BitVec.ofNat 32 b <<< 2⟩
      (fun _ => [])).bind fun s => rxRun 64 s [.receive (List.replicate 70 1), .dma, .dma,
        .scan true, .turn true, .turn true, .finish]).map (fun s => (s.returned.length, s.pool.next)) =
      some (1, 6) := by
    simp only [rxInit, rxDescriptorsInit, staticRxQueue, List.range, List.range.loop, List.foldlM]
    decide
  obtain ⟨s, hs, hlen⟩ := Option.map_eq_some'.mp hrun
  obtain ⟨s₀, h₀, hs⟩ := Option.bind_eq_some.mp hs
  simp only [Prod.mk.injEq] at hlen
  exact ⟨s₀, s, h₀, hs, hlen.1, frame_get_returns_received_frames (by decide) (by decide) (by decide)
    (fun _ => aligned_shiftLeft_two _) h₀ (by decide) hs (by rw [hlen.2]; decide)⟩

/-! ## No frame lost while every allocation succeeds -/

/-- The steps that lose no frame: all but `rx_error_handler`, a drop by the GMAC, and a call of
`net_pkt_get_reserve_rx` or `net_pkt_get_frag` that fails. -/
def RxStep.keepsFrames : RxStep → Bool
  | .scan okFrame => okFrame
  | .turn okFrag => okFrag
  | .error | .drop => false
  | _ => true

/-- The invariant of a run that loses no frame: the frames returned, read from their buffers, are
all the frames the driver is done with, and a `frame_get` in progress has a frame. -/
structure RxExact (dataSize R : Nat) (D : Nat → BitVec 32) (g : RxGhost) (s : RxSys) : Prop where
  flow : RxFlow dataSize R D g s
  returned : s.returned.map (chainBytes s.pool s.mem) = g.done
  frame : ∀ fg, s.fg = some fg → fg.rxFrame ≠ none

section
variable {dataSize R : Nat} {D : Nat → BitVec 32} {g : RxGhost} {s s' : RxSys}

theorem RxExact.step {e : RxStep} (hx : RxExact dataSize R D g s) (hDS : 0 < dataSize)
    (hds : dataSize % 64 = 0) (hD : ∀ b < s.pool.next, ∀ b' < s.pool.next, D b = D b' → b = b')
    (hal : ∀ b, Aligned (D b)) (he : e.keepsFrames = true) (h : rxStep dataSize s e = some s') :
    ∃ g', RxExact dataSize R D g' s' := by
  rcases rxStep_cases h with ⟨_, -, h⟩ | ⟨-, h⟩ | ⟨_, fg, rfl, hfg, hst, rfl⟩ |
    ⟨_, fg, rfl, hfg, hmore, rfl⟩ | ⟨fg, -, hfg, hmore, rfl⟩ | ⟨rfl, -, -⟩ | ⟨rfl, -, -⟩
  · have hf' := hx.flow.receive h
    unfold rxDmaReceive at h
    split at h <;> cases h
    exact ⟨g, hf', hx.returned, hx.frame⟩
  · obtain ⟨g', hd, hg'⟩ := hx.flow.dmaWrite hDS hds hD hal h
    obtain ⟨P, off, -, -, rfl⟩ := rxDmaWrite_some h
    refine ⟨g', hg', ?_, hx.frame⟩
    rw [hd, ← hx.returned]
    exact List.map_congr_left fun fr hfr => hx.flow.inv.chainBytes_dmaWritten hal hD P off fr
      (List.mem_append_left _ (List.mem_append_left _ hfr))
  · obtain ⟨g', hd, hg'⟩ := hx.flow.scan hDS hfg hst
    refine ⟨g', hg', hd ▸ hx.returned, fun fg' h' => ?_⟩
    cases h'
    simp only [RxStep.keepsFrames] at he
    rw [((frameGetStart_iff s.q s.pool _ fg).mp hst).1]
    simp [frameGetInit, he]
  · obtain ⟨g', hd, hg'⟩ := hx.flow.turn hDS hfg hmore
    obtain ⟨fr, hfr⟩ := Option.ne_none_iff_exists'.mp (hx.frame fg hfg)
    simp only [RxStep.keepsFrames] at he
    subst he
    refine ⟨g', hg', ?_, fun fg' h' => ?_⟩
    · rw [hd, ← hx.returned, chainBytes_congr_pool (frameGetTurn_frame _ _ _ _ _).2.1]
    · cases h'
      simp [frameGetTurn_link hfr, FrameGet.next]
  · obtain ⟨F, hF, hg'⟩ := hx.flow.finish hDS hfg hmore
    obtain ⟨fr, hfr⟩ := Option.ne_none_iff_exists'.mp (hx.frame fg hfg)
    refine ⟨_, hg', ?_, nofun⟩
    simp [hfr, ← hx.returned, hF fr hfr]
  all_goals cases he

end

/-- While every allocation succeeds, and neither `rx_error_handler` runs nor the GMAC drops a frame,
the frames `frame_get` returns are the first frames the GMAC received, in order. -/
theorem frame_get_loses_no_frame {ok : Nat → Bool} {q : RxQueue} {p : RxPool}
    {mem : Nat → List (BitVec 8)} {dataSize : Nat} {s₀ s : RxSys} {steps : List RxStep}
    (hR : 0 < q.rxDescList.len) (hDS : 0 < dataSize) (hds : dataSize % 64 = 0)
    (hal : ∀ b, Aligned (p.data b)) (h₀ : rxInit ok q p mem = some s₀)
    (hsteps : ∀ e ∈ steps, e.keepsFrames = true) (h : rxRun dataSize s₀ steps = some s)
    (hD : ∀ b < s.pool.next, ∀ b' < s.pool.next, p.data b = p.data b' → b = b') :
    s.returned.map (chainBytes s.pool s.mem) <+: s.completed := by
  have hx₀ : RxExact dataSize q.rxDescList.len p.data ⟨[], none, []⟩ s₀ := by
    refine ⟨RxFlow.init hR h₀, ?_, fun _ h => ?_⟩ <;> obtain ⟨-, rfl⟩ := rxInit_eq h₀
    · rfl
    · cases h
  obtain ⟨g, hx⟩ := rxRun_inv (fun s => ∃ g, RxExact dataSize q.rxDescList.len p.data g s)
    (·.keepsFrames = true) (fun ⟨_, hx⟩ he hD h => hx.step hDS hds hD hal he h) steps ⟨_, hx₀⟩
    hsteps h hD
  exact ⟨(g.cur.map (·.1)).toList ++ g.pend, by rw [hx.returned, hx.flow.completed, List.append_assoc]⟩

theorem frame_get_loses_no_frame_after_frame :
    ∃ s₀ s, rxInit (fun _ => true) (staticRxQueue 4) ⟨0, fun b => BitVec.ofNat 32 b <<< 2⟩
        (fun _ => []) = some s₀ ∧
      rxRun 64 s₀ [.receive (List.replicate 70 1), .dma, .dma, .scan true, .turn true,
        .turn true, .finish] = some s ∧ s.returned.length = 1 ∧
      s.returned.map (chainBytes s.pool s.mem) <+: s.completed := by
  have hrun : ((rxInit (fun _ => true) (staticRxQueue 4) ⟨0, fun b => BitVec.ofNat 32 b <<< 2⟩
      (fun _ => [])).bind fun s => rxRun 64 s [.receive (List.replicate 70 1), .dma, .dma,
        .scan true, .turn true, .turn true, .finish]).map (fun s => (s.returned.length, s.pool.next)) =
      some (1, 6) := by
    simp only [rxInit, rxDescriptorsInit, staticRxQueue, List.range, List.range.loop, List.foldlM]
    decide
  obtain ⟨s, hs, hlen⟩ := Option.map_eq_some'.mp hrun
  obtain ⟨s₀, h₀, hs⟩ := Option.bind_eq_some.mp hs
  simp only [Prod.mk.injEq] at hlen
  exact ⟨s₀, s, h₀, hs, hlen.1, frame_get_loses_no_frame (by decide) (by decide) (by decide)
    (fun _ => aligned_shiftLeft_two _) h₀ (by decide) hs (by rw [hlen.2]; decide)⟩

/-! ## When the size is not a multiple of 64 -/

set_option maxRecDepth 8000 in
/-- With `CONFIG_NET_BUF_DATA_SIZE = 100` the DMA puts 64 bytes in a buffer but `frame_get` takes
100: a frame of 70 bytes comes back with 36 stale bytes after its first 64, and a last length of
`70 - 100 = 0xFFFFFFE2`. -/
theorem unaligned_data_size_corrupts_frame :
    ((rxInit (fun _ => true) (staticRxQueue 4)
        ⟨1, fun b => BitVec.ofNat 32 (0x20000000 + 0x100 * b)⟩ (fun _ => List.replicate 100 0)).bind
      fun s => rxRun 100 s [.receive (List.replicate 70 1), .dma, .dma, .scan true, .turn true,
        .turn true, .finish]).map
      (fun s => (s.completed, s.returned.map (·.map (·.2)),
        chainBytes s.pool s.mem (s.returned.headD []))) =
    some ([List.replicate 70 1], [[100, 0xFFFFFFE2]],
      List.replicate 64 1 ++ List.replicate 36 0 ++ List.replicate 6 1 ++ List.replicate 94 0) := by
  simp only [rxInit, rxDescriptorsInit, staticRxQueue, List.range, List.range.loop, List.foldlM]
  decide

end SamGmac.Rx
