import SamGmac.Rx.System

/-! # Which buffers the RX DMA may write

From a successful `queue_init`, every slot of `rx_frag_list` holds a buffer of its own, the
address field of each descriptor is the data pointer of its slot's buffer, and no buffer of the
ring belongs to a frame `frame_get` has returned or released. The pool hands out fresh buffers
whose data pointers pass the alignment check of `rx_descriptors_init`.
-/

namespace SamGmac.Rx

open SamGmac

/-- A data pointer `rx_descriptors_init` accepts: no bit outside `GMAC_RXW0_ADDR`. -/
def Aligned (a : BitVec 32) : Prop := a &&& gmacRxw0Addr = a

theorem aligned_shiftLeft_two (a : BitVec 32) : Aligned (a <<< 2) := by
  ext i
  simp only [BitVec.getLsbD_and, BitVec.getLsbD_shiftLeft, getLsbD_rxw0Addr]
  by_cases h : (i : Nat) < 2 <;> simp [h, i.isLt]; omega

/-- A pointer to a buffer the pool has already handed out. -/
def BufPtr.Issued (next : Nat) : BufPtr → Prop
  | .buf b => b < next
  | _ => False

instance (next : Nat) : DecidablePred (BufPtr.Issued next)
  | .buf b => inferInstanceAs (Decidable (b < next))
  | .null | .fragArray => isFalse id

/-- The frames that have left the ring: returned, released, or being built. -/
def RxSys.outFrames (s : RxSys) : List (List Frag) :=
  s.returned ++ s.released ++ (s.fg.bind (·.rxFrame)).toList

/-- The invariant of the RX ring, for a ring of `R` descriptors and a pool whose buffers have
the data pointers `D`. -/
structure RxInv (R : Nat) (D : Nat → BitVec 32) (s : RxSys) : Prop where
  len : s.q.rxDescList.len = R
  pos : 0 < R
  tail : s.q.rxDescList.tail < R
  fgTail : ∀ fg, s.fg = some fg → fg.tail < R
  data : s.pool.data = D
  slot : ∀ i < R, (s.q.rxFragList.buf i).Issued s.pool.next
  distinct : ∀ i < R, ∀ j < R, s.q.rxFragList.buf i = s.q.rxFragList.buf j → i = j
  addr : ∀ i < R, (s.q.rxDescList.buf i).w0 &&& gmacRxw0Addr =
    s.pool.dataOf (s.q.rxFragList.buf i) &&& gmacRxw0Addr
  wrap : ∀ i < R, flag (s.q.rxDescList.buf i).w0 gmacRxw0Wrap = decide (i = R - 1)
  dmaPtr : s.dma.ptr < R
  out : ∀ fr ∈ s.outFrames, ∀ f ∈ fr,
    f.1.Issued s.pool.next ∧ ∀ i < R, s.q.rxFragList.buf i ≠ f.1

theorem BufPtr.Issued.mono {next next' : Nat} {f : BufPtr} (h : f.Issued next)
    (hle : next ≤ next') : f.Issued next' := by
  cases f <;> simp_all [BufPtr.Issued]; omega

theorem BufPtr.Issued.ne_fresh {next : Nat} {f : BufPtr} (h : f.Issued next) : f ≠ .buf next := by
  rintro rfl; simp [BufPtr.Issued] at h

theorem BufPtr.Issued.exists_buf {next : Nat} {f : BufPtr} (h : f.Issued next) :
    ∃ b < next, f = .buf b := by
  cases f <;> simp_all [BufPtr.Issued]

theorem RxPool.dataOf_aligned {p : RxPool} (hal : ∀ b, Aligned (p.data b)) (f : BufPtr) :
    p.dataOf f &&& gmacRxw0Addr = p.dataOf f := by
  cases f with
  | buf b => exact hal b
  | null | fragArray => simp [RxPool.dataOf]

/-! ## Each step keeps the invariant -/

section
variable {R dataSize : Nat} {D : Nat → BitVec 32} {s s' : RxSys}

/-- The start: `rx_descriptors_init` fills the ring with fresh buffers. -/
theorem RxInv.init {ok : Nat → Bool} {q : RxQueue} {p : RxPool} {mem : Nat → List (BitVec 8)}
    (hR : 0 < q.rxDescList.len) (h : rxInit ok q p mem = some s) :
    RxInv q.rxDescList.len p.data s := by
  obtain ⟨h0, rfl⟩ := rxInit_eq h
  obtain ⟨hp, hl, ht, -, hi⟩ := rxDescriptorsInit_ok h0
  refine ⟨hl, hR, by simp [ht, hR], by simp, ?_, fun i hi' => ?_, fun i hi' j hj' hij => ?_,
    fun i hi' => ?_, fun i hi' => ?_, hR, by simp [RxSys.outFrames]⟩
  · simp [hp]
  · simp [(hi i hi').1, hp, BufPtr.Issued, hi']
  · simpa [(hi i hi').1, (hi j hj').1] using hij
  · simp only [(hi i hi').1, (hi i hi').2, hp, RxPool.dataOf, rxInitDesc_addr]
  · simp only [(hi i hi').2, rxInitDesc_wrap, hl]

theorem RxInv.receive {bytes : List (BitVec 8)} (hi : RxInv R D s)
    (h : rxDmaReceive bytes s = some s') : RxInv R D s' := by
  unfold rxDmaReceive at h
  split at h
  · cases h; exact { hi with }
  · cases h

/-- A DMA write-back only sets `OWNERSHIP` in the address word, and moves on within the ring. -/
theorem RxInv.dma (hi : RxInv R D s) (h : rxDmaWrite dataSize s = some s') : RxInv R D s' := by
  obtain ⟨bytes, off, -, -, rfl⟩ := rxDmaWrite_some h
  have hw := hi.wrap _ hi.dmaPtr
  refine { hi with addr := fun i hi' => ?_, wrap := fun i hi' => ?_, dmaPtr := ?_ }
  · simp only [RxSys.dmaWritten, RxQueue.setDesc_buf, RxQueue.setDesc_fragList]
    split
    · subst_vars; rw [or_ownership_and_rxw0Addr]; exact hi.addr _ hi'
    · exact hi.addr i hi'
  · simp only [RxSys.dmaWritten, RxQueue.setDesc_buf]
    split
    · subst_vars; rw [flag_wrap_or_ownership]; exact hi.wrap _ hi'
    · exact hi.wrap i hi'
  · have := hi.dmaPtr
    simp only [RxSys.dmaWritten, hw]
    by_cases hp : s.dma.ptr = R - 1 <;> simp [hp, hi.pos]
    omega

theorem RxInv.scan {okFrame : Bool} {fg : FrameGet} (hi : RxInv R D s) (hfg : s.fg = none)
    (h : frameGetStart s.q okFrame = some fg) : RxInv R D { s with fg := some fg } := by
  obtain ⟨ht, hfr, -, -⟩ := frameGetStart_some h
  refine { hi with fgTail := fun fg' h' => ?_, out := fun fr hin f hf => ?_ }
  · cases h'; exact ht ▸ hi.tail
  · simp only [RxSys.outFrames, Option.bind_some, List.mem_append, Option.mem_toList] at hin
    rcases hin with hin | hin
    · exact hi.out fr (by simp [RxSys.outFrames, hfg, hin]) f hf
    · cases hfr fr (Option.mem_def.mp hin); simp at hf

/-- `frame_get` gives slot `t` back with the address of the buffer `f` the slot now holds and
with `WRAP` on the last slot; the other slots keep what they had. -/
theorem giveBack_fields {q : RxQueue} {p : RxPool} {t : Nat} {f : BufPtr}
    (hl : q.rxDescList.len = R) (hf : q.rxFragList.buf t = f)
    (haddr : ∀ i < R, i ≠ t → (q.rxDescList.buf i).w0 &&& gmacRxw0Addr =
      p.dataOf (q.rxFragList.buf i) &&& gmacRxw0Addr)
    (hwrap : ∀ i < R, i ≠ t → flag (q.rxDescList.buf i).w0 gmacRxw0Wrap = decide (i = R - 1))
    (i : Nat) (hi : i < R) :
    let q' := q.setDesc t (rxGiveBack p q.rxDescList.len t f)
    (q'.rxDescList.buf i).w0 &&& gmacRxw0Addr = p.dataOf (q'.rxFragList.buf i) &&& gmacRxw0Addr ∧
      flag (q'.rxDescList.buf i).w0 gmacRxw0Wrap = decide (i = R - 1) := by
  simp only [RxQueue.setDesc_buf, RxQueue.setDesc_fragList]
  split
  · subst_vars
    exact ⟨rxGiveBack_addr _ _ _ _, rxGiveBack_wrap _ _ _ _⟩
  · exact ⟨haddr i hi ‹_›, hwrap i hi ‹_›⟩

/-- One descriptor of `frame_get`: the buffer at `tail` stays in the ring, or goes into the frame
with a fresh buffer in its place. -/
theorem RxInv.turn {okFrag : Bool} {fg : FrameGet} (hi : RxInv R D s) (hfg : s.fg = some fg) :
    RxInv R D { s with q := (frameGetTurn dataSize okFrag s.q s.pool fg).1,
                       pool := (frameGetTurn dataSize okFrag s.q s.pool fg).2.1,
                       fg := some (frameGetTurn dataSize okFrag s.q s.pool fg).2.2.1,
                       released :=
                         s.released ++ (frameGetTurn dataSize okFrag s.q s.pool fg).2.2.2.toList } := by
  have ht := hi.fgTail fg hfg
  have hnext : ∀ fr, (fg.next dataSize s.q fr).tail < R := fun _ => by
    rw [← hi.len]; exact moduloInc_lt (hi.len ▸ hi.pos)
  have hback := giveBack_fields (t := fg.tail) hi.len rfl (fun i h _ => hi.addr i h)
    (fun i h _ => hi.wrap i h)
  cases hfr : fg.rxFrame with
  | none =>
    rw [frameGetTurn_of_none okFrag hfr]
    refine { hi with fgTail := fun fg' h' => ?_, addr := fun i h => (hback i h).1,
                     wrap := fun i h => (hback i h).2, out := fun fr hin f hf => ?_ }
    · cases h'; exact hnext _
    · simp only [RxSys.outFrames, Option.some_bind, FrameGet.next, Option.toList_none,
        List.append_nil] at hin
      exact hi.out fr (by simp [RxSys.outFrames, hfg, hfr, hin]) f hf
  | some fr₀ =>
    cases okFrag
    · rw [frameGetTurn_drop hfr]
      refine { hi with fgTail := fun fg' h' => ?_, addr := fun i h => (hback i h).1,
                       wrap := fun i h => (hback i h).2, out := fun fr hin f hf => ?_ }
      · cases h'; exact hnext _
      · simp only [RxSys.outFrames, Option.some_bind, FrameGet.next, Option.toList_none,
          List.append_nil] at hin
        exact hi.out fr (by simpa [RxSys.outFrames, hfg, hfr] using hin) f hf
    · rw [frameGetTurn_link hfr]
      have hslot := hi.slot fg.tail ht
      have hlink := giveBack_fields (q := s.q.setFrag fg.tail (.buf s.pool.next))
        (p := { s.pool with next := s.pool.next + 1 }) (t := fg.tail) (f := .buf s.pool.next) hi.len
        (by simp [RxQueue.setFrag_buf]) (fun i h hne => by simpa [RxQueue.setFrag_buf, hne] using hi.addr i h)
        (fun i h _ => hi.wrap i h)
      refine { hi with fgTail := fun fg' h' => ?_, slot := fun i hi' => ?_,
                       distinct := fun i hi' j hj' hij => ?_, addr := fun i h => (hlink i h).1,
                       wrap := fun i h => (hlink i h).2, out := fun fr hin f hf => ?_ }
      · cases h'; exact hnext _
      · simp only [RxQueue.setDesc_fragList, RxQueue.setFrag_buf]
        split
        · simp [BufPtr.Issued]
        · exact (hi.slot i hi').mono (by omega)
      · simp only [RxQueue.setDesc_fragList, RxQueue.setFrag_buf] at hij
        split at hij <;> split at hij
        · omega
        · exact absurd hij.symm ((hi.slot j hj').ne_fresh)
        · exact absurd hij ((hi.slot i hi').ne_fresh)
        · exact hi.distinct i hi' j hj' hij
      · simp only [RxQueue.setDesc_fragList, RxQueue.setFrag_buf]
        simp only [RxSys.outFrames, Option.some_bind, FrameGet.next, Option.toList_some,
          Option.toList_none, List.append_nil, List.mem_append, List.mem_singleton] at hin
        have hold : ∀ fr ∈ s.outFrames, ∀ f ∈ fr, f.1.Issued (s.pool.next + 1) ∧
            ∀ i < R, (if i = fg.tail then BufPtr.buf s.pool.next else s.q.rxFragList.buf i) ≠ f.1 := by
          intro fr hin f hf
          obtain ⟨hiss, hne⟩ := hi.out fr hin f hf
          refine ⟨hiss.mono (by omega), fun i hi' => ?_⟩
          split
          · exact fun h => hiss.ne_fresh h.symm
          · exact hne i hi'
        rcases hin with hin | rfl
        · exact hold fr (by simp only [RxSys.outFrames, List.mem_append]; exact .inl hin) f hf
        · simp only [List.mem_append, List.mem_singleton] at hf
          rcases hf with hf | rfl
          · exact hold fr₀ (by simp [RxSys.outFrames, hfg, hfr]) f hf
          · refine ⟨hslot.mono (by omega), fun i hi' => ?_⟩
            split
            · exact fun h => hslot.ne_fresh h.symm
            · exact fun h => ‹¬i = fg.tail› (hi.distinct i hi' fg.tail ht h)

/-- The end of `frame_get`: the tail moves on and the frame is handed to `net_recv_data`. -/
theorem RxInv.finish {fg : FrameGet} (hi : RxInv R D s) (hfg : s.fg = some fg) :
    RxInv R D { s with q := frameGetEnd s.q fg, fg := none,
                       returned := s.returned ++ fg.rxFrame.toList } := by
  refine { hi with tail := hi.fgTail fg hfg, fgTail := fun _ h => (nomatch h),
                   out := fun fr hin f hf => hi.out fr ?_ f hf }
  simp only [RxSys.outFrames, List.mem_append, Option.bind_none, Option.toList_none,
    List.not_mem_nil, or_false] at hin
  simp only [RxSys.outFrames, hfg, Option.some_bind, List.mem_append]
  tauto

/-- `rx_error_handler` keeps every buffer in its slot and every address and `WRAP` bit. -/
theorem RxInv.error (hi : RxInv R D s) :
    RxInv R D { s with q := rxErrorHandler s.q, dma := ⟨0, none⟩ } := by
  obtain ⟨-, -, -, hspec⟩ := rxErrorHandler_spec s.q
  refine { hi with tail := hi.pos, addr := fun i h => ?_, wrap := fun i h => ?_, dmaPtr := hi.pos }
  · rw [(hspec i (hi.len ▸ h)).2.2.1]; exact hi.addr i h
  · rw [(hspec i (hi.len ▸ h)).2.2.2]; exact hi.wrap i h

theorem RxInv.step {e : RxStep} (hi : RxInv R D s) (h : rxStep dataSize s e = some s') :
    RxInv R D s' := by
  rcases rxStep_cases h with ⟨_, -, h⟩ | ⟨-, h⟩ | ⟨_, _, -, hfg, hst, rfl⟩ | ⟨_, _, -, hfg, -, rfl⟩ |
    ⟨_, -, hfg, -, rfl⟩ | ⟨-, -, rfl⟩ | ⟨-, -, rfl⟩
  · exact hi.receive h
  · exact hi.dma h
  · exact hi.scan hfg hst
  · exact hi.turn hfg
  · exact hi.finish hfg
  · exact hi.error
  · exact { hi with }

theorem RxInv.reachable {s₀ : RxSys} (h₀ : RxInv R D s₀) (h : RxReachable dataSize s₀ s) :
    RxInv R D s := by
  induction h with
  | init => exact h₀
  | step e _ hs ih => exact ih.step hs

end

/-! ## The RX ring in every reachable state -/

/-- From a successful `queue_init`, in every state a run reaches: each slot of `rx_frag_list`
holds a buffer the pool handed out, no two slots the same one; each descriptor's address field
is the data pointer of its slot's buffer, which is what `frame_get` asserts; the DMA's next
descriptor is in the ring; and no buffer of the ring belongs to a frame `frame_get` returned or
released. -/
theorem rx_frag_list_matches_descriptors {ok : Nat → Bool} {q : RxQueue} {p : RxPool}
    {mem : Nat → List (BitVec 8)} {dataSize : Nat} {s₀ s : RxSys}
    (hR : 0 < q.rxDescList.len) (hal : ∀ b, Aligned (p.data b))
    (h₀ : rxInit ok q p mem = some s₀) (h : RxReachable dataSize s₀ s) :
    (∀ i < q.rxDescList.len, ∃ b < s.pool.next, s.q.rxFragList.buf i = .buf b) ∧
    (∀ i < q.rxDescList.len, ∀ j < q.rxDescList.len,
      s.q.rxFragList.buf i = s.q.rxFragList.buf j → i = j) ∧
    (∀ i < q.rxDescList.len,
      (s.q.rxDescList.buf i).w0 &&& gmacRxw0Addr = s.pool.dataOf (s.q.rxFragList.buf i)) ∧
    s.dma.ptr < q.rxDescList.len ∧
    (∀ fr ∈ s.returned ++ s.released, ∀ f ∈ fr, ∀ i < q.rxDescList.len,
      s.q.rxFragList.buf i ≠ f.1) := by
  have hi := (RxInv.init hR h₀).reachable h
  refine ⟨fun i h => (hi.slot i h).exists_buf, hi.distinct, fun i h => ?_, hi.dmaPtr,
    fun fr hfr f hf => (hi.out fr ?_ f hf).2⟩
  · rw [hi.addr i h, RxPool.dataOf_aligned (hi.data ▸ hal)]
  simp only [RxSys.outFrames, List.mem_append] at hfr ⊢
  exact .inl hfr

theorem rx_frag_list_matches_descriptors_after_frame :
    ∃ s₀ s, rxInit (fun _ => true) (staticRxQueue 4) ⟨0, fun b => BitVec.ofNat 32 b <<< 2⟩
        (fun _ => []) = some s₀ ∧
      rxRun 64 s₀ [.receive (List.replicate 70 1), .dma, .dma, .scan true, .turn true,
        .turn true, .finish] = some s ∧ s.returned.length = 1 ∧
      ((∀ i < 4, ∃ b < s.pool.next, s.q.rxFragList.buf i = .buf b) ∧
      (∀ i < 4, ∀ j < 4, s.q.rxFragList.buf i = s.q.rxFragList.buf j → i = j) ∧
      (∀ i < 4,
        (s.q.rxDescList.buf i).w0 &&& gmacRxw0Addr = s.pool.dataOf (s.q.rxFragList.buf i)) ∧
      s.dma.ptr < 4 ∧
      (∀ fr ∈ s.returned ++ s.released, ∀ f ∈ fr, ∀ i < 4, s.q.rxFragList.buf i ≠ f.1)) := by
  have hrun : ((rxInit (fun _ => true) (staticRxQueue 4) ⟨0, fun b => BitVec.ofNat 32 b <<< 2⟩
      (fun _ => [])).bind fun s => rxRun 64 s [.receive (List.replicate 70 1), .dma, .dma,
        .scan true, .turn true, .turn true, .finish]).map (·.returned.length) = some 1 := by
    simp only [rxInit, rxDescriptorsInit, staticRxQueue, List.range, List.range.loop, List.foldlM]
    decide
  obtain ⟨s, hs, hlen⟩ := Option.map_eq_some'.mp hrun
  obtain ⟨s₀, h₀, hs⟩ := Option.bind_eq_some.mp hs
  exact ⟨s₀, s, h₀, hs, hlen, rx_frag_list_matches_descriptors (by decide)
    (fun _ => aligned_shiftLeft_two _) h₀ (RxReachable.of_rxRun _ .init hs)⟩

/-! ## No buffer is lost or held twice -/

/-- The buffers the RX side holds: the one in each slot of `rx_frag_list`, then those of the
frames that have left the ring. -/
def RxSys.held (R : Nat) (s : RxSys) : List BufPtr :=
  (List.range R).map s.q.rxFragList.buf ++ s.outFrames.flatMap (·.map (·.1))

theorem perm_swap_last {α : Type} (l : List α) (x y : α) : (l ++ [x] ++ [y]).Perm (l ++ [y] ++ [x]) := by
  simpa using (List.Perm.swap y x []).append_left l

/-- Putting `v` in slot `t` of a ring and setting the old buffer aside holds the same buffers
as the ring with `v` beside it. -/
theorem map_setAt_range_perm {α : Type} (f : Nat → α) {t : Nat} (v : α) :
    ∀ {R : Nat}, t < R → ((List.range R).map (setAt f t v) ++ [f t]).Perm ((List.range R).map f ++ [v])
  | 0, h => absurd h (Nat.not_lt_zero _)
  | k + 1, h => by
    rw [List.range_succ, List.map_append, List.map_append, List.map_singleton, List.map_singleton]
    by_cases hk : t = k
    · subst hk
      rw [List.map_congr_left fun i hi => setAt_ne f v (Nat.ne_of_lt (List.mem_range.mp hi)),
        setAt_same]
      exact perm_swap_last _ _ _
    · rw [setAt_ne f v (Ne.symm hk)]
      exact (perm_swap_last _ _ _).trans (((map_setAt_range_perm f v (by omega)).append_right _).trans
        (perm_swap_last _ _ _))

section
variable {R : Nat} {D : Nat → BitVec 32} {dataSize : Nat} {s s' : RxSys}

/-- Each step holds the buffers it held before, and those it takes from the pool. -/
theorem RxSys.held_step {e : RxStep} (hi : RxInv R D s) (h : rxStep dataSize s e = some s') :
    s.pool.next ≤ s'.pool.next ∧ (s'.held R).Perm
      (s.held R ++ (List.range' s.pool.next (s'.pool.next - s.pool.next)).map .buf) := by
  rcases rxStep_cases h with ⟨_, -, h⟩ | ⟨-, h⟩ | ⟨_, fg, -, hfg, hst, rfl⟩ |
    ⟨okFrag, fg, -, hfg, -, rfl⟩ | ⟨fg, -, hfg, -, rfl⟩ | ⟨-, -, rfl⟩ | ⟨-, -, rfl⟩
  · unfold rxDmaReceive at h; split at h <;> cases h; simp [RxSys.held, RxSys.outFrames]
  · obtain ⟨_, _, -, -, rfl⟩ := rxDmaWrite_some h
    simp [RxSys.held, RxSys.outFrames, RxSys.dmaWritten]
  · obtain ⟨-, hfr, -, -⟩ := frameGetStart_some hst
    cases hr : fg.rxFrame with
    | none => simp [RxSys.held, RxSys.outFrames, hfg, hr]
    | some fr => simp [RxSys.held, RxSys.outFrames, hfg, hr, hfr fr hr]
  · cases hr : fg.rxFrame with
    | none => rw [frameGetTurn_of_none _ hr]; simp [RxSys.held, RxSys.outFrames, hfg, hr, FrameGet.next]
    | some fr =>
      cases okFrag
      · rw [frameGetTurn_drop hr]; simp [RxSys.held, RxSys.outFrames, hfg, hr, FrameGet.next]
      · rw [frameGetTurn_link hr]
        refine ⟨Nat.le_succ _, ?_⟩
        have hmap := map_setAt_range_perm s.q.rxFragList.buf (.buf s.pool.next) (hi.fgTail fg hfg)
        simp only [RxSys.held, RxSys.outFrames, hfg, hr, FrameGet.next, Option.some_bind,
          show (s.q.setFrag fg.tail (.buf s.pool.next)).rxFragList.buf =
            setAt s.q.rxFragList.buf fg.tail (.buf s.pool.next) from rfl, RxQueue.setDesc_fragList,
          Nat.add_sub_cancel_left, List.range'_one, List.map_singleton] at hmap ⊢
        rw [List.perm_iff_count] at hmap ⊢
        intro a
        have := hmap a
        simp only [List.count_append, List.flatMap_append, List.flatMap_cons, List.flatMap_nil,
          List.map_append, List.map_singleton, Option.toList_some, Option.toList_none,
          List.count_nil, List.append_nil] at this ⊢
        omega
  · refine ⟨le_rfl, ?_⟩
    simpa [RxSys.held, RxSys.outFrames, hfg, frameGetEnd] using
      (List.perm_append_comm.append_left _).append_left _
  · simp [RxSys.held, RxSys.outFrames, (rxErrorHandler_spec s.q).1]
  · simp [RxSys.held, RxSys.outFrames]

/-- The ring `rx_descriptors_init` fills holds the buffers it took from the pool. -/
theorem RxSys.held_init {ok : Nat → Bool} {q : RxQueue} {p : RxPool} {mem : Nat → List (BitVec 8)}
    {s : RxSys} (h : rxInit ok q p mem = some s) :
    s.pool.next = p.next + q.rxDescList.len ∧
      s.held q.rxDescList.len = (List.range' p.next q.rxDescList.len).map .buf := by
  obtain ⟨h0, rfl⟩ := rxInit_eq h
  obtain ⟨hp, -, -, -, hd⟩ := rxDescriptorsInit_ok h0
  refine ⟨by simp [hp], ?_⟩
  simp only [RxSys.held, RxSys.outFrames, List.range'_eq_map_range, List.map_map]
  simp only [List.append_nil, List.nil_append, Option.bind, Option.toList_none, List.flatMap_nil]
  exact List.map_congr_left fun i hi => by simp [(hd i (List.mem_range.mp hi)).1, Nat.add_comm]

/-- No buffer of the RX side is lost or held twice: in every state reachable from
`rx_descriptors_init`, the buffers in the slots of `rx_frag_list` and in the frames `frame_get`
has returned, released or is building are the buffers the pool has handed out since, each once. -/
theorem rx_buffers_conserved {ok : Nat → Bool} {q : RxQueue} {p : RxPool}
    {mem : Nat → List (BitVec 8)} {dataSize : Nat} {s₀ s : RxSys}
    (hR : 0 < q.rxDescList.len) (h₀ : rxInit ok q p mem = some s₀) (h : RxReachable dataSize s₀ s) :
    (s.held q.rxDescList.len).Perm ((List.range' p.next (s.pool.next - p.next)).map .buf) := by
  have hi₀ := RxInv.init hR h₀
  obtain ⟨hn₀, hh₀⟩ := RxSys.held_init h₀
  suffices p.next ≤ s.pool.next ∧
      (s.held q.rxDescList.len).Perm ((List.range' p.next (s.pool.next - p.next)).map .buf) from
    this.2
  induction h with
  | init => exact ⟨by omega, by rw [hh₀, hn₀, Nat.add_sub_cancel_left]⟩
  | @step s₁ s₂ e hr hs ih =>
    obtain ⟨hle, hperm⟩ := RxSys.held_step (hi₀.reachable hr) hs
    refine ⟨ih.1.trans hle, hperm.trans ((ih.2.append_right _).trans ?_)⟩
    have := List.range'_append p.next (s₁.pool.next - p.next) (s₂.pool.next - s₁.pool.next) 1
    rw [show p.next + 1 * (s₁.pool.next - p.next) = s₁.pool.next by omega,
      show s₂.pool.next - s₁.pool.next + (s₁.pool.next - p.next) = s₂.pool.next - p.next by
        omega] at this
    rw [← List.map_append, this]

theorem rx_buffers_conserved_after_frame :
    ∃ s₀ s, rxInit (fun _ => true) (staticRxQueue 4) ⟨0, fun b => BitVec.ofNat 32 b <<< 2⟩
        (fun _ => []) = some s₀ ∧
      rxRun 64 s₀ [.receive (List.replicate 70 1), .dma, .dma, .scan true, .turn true,
        .turn true, .finish] = some s ∧ s.returned.length = 1 ∧
      (s.held 4).Perm ((List.range' 0 (s.pool.next - 0)).map .buf) := by
  have hrun : ((rxInit (fun _ => true) (staticRxQueue 4) ⟨0, fun b => BitVec.ofNat 32 b <<< 2⟩
      (fun _ => [])).bind fun s => rxRun 64 s [.receive (List.replicate 70 1), .dma, .dma,
        .scan true, .turn true, .turn true, .finish]).map (·.returned.length) = some 1 := by
    simp only [rxInit, rxDescriptorsInit, staticRxQueue, List.range, List.range.loop, List.foldlM]
    decide
  obtain ⟨s, hs, hlen⟩ := Option.map_eq_some'.mp hrun
  obtain ⟨s₀, h₀, hs⟩ := Option.bind_eq_some.mp hs
  exact ⟨s₀, s, h₀, hs, hlen, rx_buffers_conserved (by decide) h₀ (RxReachable.of_rxRun _ .init hs)⟩

end

end SamGmac.Rx
