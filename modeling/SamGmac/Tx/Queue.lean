import SamGmac.RingBuf

/-! # The TX half of queue 0

`tx_descriptors_init`, `tx_completed` and `tx_error_handler` as functions of the TX fields of
`struct gmac_queue`. Their register writes (`TXEN`) belong to `Tx/System.lean`.
-/

namespace SamGmac.Tx

open SamGmac

/-- The TX fields of `struct gmac_queue`. `txDescSem` is the count of `tx_desc_sem`. -/
structure TxQueue where
  txDescList : GmacDescList
  txFrames : RingBuf Nat
  txDescSem : Nat
  errTxFlushedCount : BitVec 32

/-- The limit `queue_init` gives `tx_desc_sem`. -/
def TxQueue.semLimit (q : TxQueue) : Nat := q.txDescList.len - 1

/-- `k_sem_give` with no thread waiting: `count += (count != limit)`. -/
def kSemGive (limit count : Nat) : Nat := if count = limit then count else count + 1

theorem kSemGive_iterate (limit n : Nat) : (kSemGive limit)^[n] 0 = min n limit := by
  induction n with
  | zero => simp
  | succ n ih =>
    rw [Function.iterate_succ_apply', ih, kSemGive]
    split <;> omega

/-! ## tx_descriptors_init -/

/-- `tx_descriptors_init`: every descriptor empty and used, `WRAP` on the last, the indices
and `tx_frames` reset. -/
def txDescriptorsInit (q : TxQueue) : TxQueue :=
  let l := q.txDescList
  let buf := (List.range l.len).foldl (fun b i => setAt b i ⟨0, gmacTxw1Used⟩) l.buf
  let buf := setAt buf (l.len - 1) ((buf (l.len - 1)).appendW1 gmacTxw1Wrap)
  { q with txDescList := { l with buf, head := 0, tail := 0 }, txFrames := ringBufReset q.txFrames }

/-- The descriptor `tx_descriptors_init` leaves in slot `i` of a ring of `len` slots. -/
def txInitDesc (len i : Nat) : GmacDesc :=
  ⟨0, if i = len - 1 then gmacTxw1Used ||| gmacTxw1Wrap else gmacTxw1Used⟩

theorem txDescriptorsInit_buf (q : TxQueue) {i : Nat} (hi : i < q.txDescList.len) :
    (txDescriptorsInit q).txDescList.buf i = txInitDesc q.txDescList.len i := by
  simp only [txDescriptorsInit, txInitDesc, setAt_apply, foldl_setAt_range]
  split <;> simp_all [GmacDesc.appendW1]

@[simp] theorem txDescriptorsInit_len (q : TxQueue) :
    (txDescriptorsInit q).txDescList.len = q.txDescList.len := rfl
@[simp] theorem txDescriptorsInit_head (q : TxQueue) : (txDescriptorsInit q).txDescList.head = 0 :=
  rfl
@[simp] theorem txDescriptorsInit_tail (q : TxQueue) : (txDescriptorsInit q).txDescList.tail = 0 :=
  rfl
@[simp] theorem txDescriptorsInit_frames (q : TxQueue) :
    (txDescriptorsInit q).txFrames = ringBufReset q.txFrames := rfl
@[simp] theorem txDescriptorsInit_sem (q : TxQueue) :
    (txDescriptorsInit q).txDescSem = q.txDescSem := rfl
@[simp] theorem txDescriptorsInit_flushed (q : TxQueue) :
    (txDescriptorsInit q).errTxFlushedCount = q.errTxFlushedCount := rfl

/-! ## tx_completed -/

/-- The loop of `tx_completed`, one turn of fuel per descriptor: it gives one unit back per
descriptor and stops after the first `LASTBUFFER` one, with the packet it took from
`tx_frames`. -/
def txCompletedLoop : Nat → TxQueue → TxQueue × Option Nat
  | 0, q => (q, none)
  | fuel + 1, q =>
    let l := q.txDescList
    if l.tail = l.head then (q, none)
    else
      let d := l.buf l.tail
      let q := { q with txDescList := { l with tail := moduloInc l.tail l.len },
                        txDescSem := kSemGive q.semLimit q.txDescSem }
      if flag d.w1 gmacTxw1Lastbuffer then
        let (pkt, frames) := ringBufGet q.txFrames
        ({ q with txFrames := frames }, some pkt)
      else txCompletedLoop fuel q

/-- `tx_completed`: the packet it releases, if any. The loop visits at most `len` slots. -/
def txCompleted (q : TxQueue) : TxQueue × Option Nat := txCompletedLoop q.txDescList.len q

/-! ## tx_error_handler -/

/-- The drain loop of `tx_error_handler`: the value at `tail` is released and `tail` moves on
until it meets `head`. -/
def txFramesDrain : Nat → RingBuf Nat → RingBuf Nat × List Nat
  | 0, rb => (rb, [])
  | fuel + 1, rb =>
    if rb.tail = rb.head then (rb, [])
    else
      let r := txFramesDrain fuel { rb with tail := moduloInc rb.tail rb.len }
      (r.1, rb.buf rb.tail :: r.2)

/-- `tx_error_handler` on the queue: the packets it releases, in order. -/
def txErrorHandler (q : TxQueue) : TxQueue × List Nat :=
  let q := { q with errTxFlushedCount := q.errTxFlushedCount + 1 }
  let r := txFramesDrain q.txFrames.len q.txFrames
  let q := txDescriptorsInit { q with txFrames := r.1, txDescSem := 0 }
  ({ q with txDescSem := (kSemGive q.semLimit)^[q.txDescList.len - 1] q.txDescSem }, r.2)

theorem txFramesDrain_of_eq {rb : RingBuf Nat} (h : rb.tail = rb.head) (fuel : Nat) :
    txFramesDrain fuel rb = (rb, []) := by
  cases fuel <;> simp [txFramesDrain, h]

theorem txFramesDrain_eq {rb : RingBuf Nat} (ht : rb.tail < rb.len) (hh : rb.head < rb.len)
    {fuel : Nat} (hf : rb.count ≤ fuel) :
    txFramesDrain fuel rb = ({ rb with tail := rb.head }, rb.contents) := by
  induction fuel generalizing rb with
  | zero =>
    have h0 : rb.count = 0 := by omega
    have := (RingBuf.count_eq_zero_iff ht hh).mp h0
    cases rb
    simp_all [txFramesDrain, RingBuf.contents]
  | succ fuel ih =>
    rw [txFramesDrain]
    split
    · rename_i h
      have hc := (RingBuf.count_eq_zero_iff ht hh).mpr h
      cases rb
      simp_all [RingBuf.contents]
    · rename_i h
      have hc := RingBuf.count_of_ne ht hh h
      rw [@ih { rb with tail := moduloInc rb.tail rb.len } (moduloInc_lt (by omega)) hh (by omega),
        RingBuf.contents_of_ne ht hh h]

/-- `tx_frames` from `ring_buf_reset`, over any sequence of calls: both indices stay in the
ring; while every assertion holds, the values from `tail` to `head` are those put and not yet
got, in put order, and each get returns the oldest; in any state, the assertion of
`ring_buf_put` fails exactly when the ring already held `len - 1` values, and the drain loop of
`tx_error_handler` takes the values `count` calls of `ring_buf_get` would take, in order. -/
theorem tx_frames_ring_is_fifo {rb : RingBuf Nat} (hn : 0 < rb.len) (ops : List (RingOp Nat)) :
    ((opsRun ringBufOp (ringBufReset rb) ops).1.tail < rb.len ∧
      (opsRun ringBufOp (ringBufReset rb) ops).1.head < rb.len) ∧
    (ringBufValid (ringBufReset rb) ops = true →
      (opsRun ringBufOp (ringBufReset rb) ops).1.contents = (opsRun fifoOp [] ops).1 ∧
      (opsRun ringBufOp (ringBufReset rb) ops).2 = (opsRun fifoOp [] ops).2) ∧
    (∀ rb' : RingBuf Nat, rb'.len = rb.len → rb'.tail < rb.len → rb'.head < rb.len →
      (∀ val, (ringBufPut rb' val).tail = (ringBufPut rb' val).head ↔ rb'.count = rb.len - 1) ∧
      ringBufValid rb' (List.replicate rb'.count .get) = true ∧
      txFramesDrain rb'.len rb' = opsRun ringBufOp rb' (List.replicate rb'.count .get)) := by
  have h0 : 0 < (ringBufReset rb).len := hn
  refine ⟨opsRun_lt h0 h0 h0 ops, fun hv => ?_, fun rb' hl ht hh => ?_⟩
  · simpa using opsRun_fifo h0 h0 h0 hv
  · rw [← hl] at ht hh ⊢
    obtain ⟨hg, hv⟩ := RingBuf.gets_count ht hh
    exact ⟨RingBuf.put_tail_eq_head_iff ht hh, hv,
      (txFramesDrain_eq ht hh (rb'.count_lt (by omega)).le).trans hg.symm⟩

/-- Three slots, and indices that go round the ring. -/
theorem tx_frames_ring_is_fifo_wrapped :
    0 < 3 ∧
    ringBufValid (ringBufReset (⟨fun _ => 0, 3, 0, 0⟩ : RingBuf Nat))
      [.put 1, .put 2, .get, .put 3, .get, .put 4, .get] = true ∧
    (opsRun fifoOp [] [.put 1, .put 2, .get, .put 3, .get, .put 4, .get]).2 = [1, 2, 3] ∧
    (((opsRun ringBufOp (ringBufReset (⟨fun _ => 0, 3, 0, 0⟩ : RingBuf Nat))
        [.put 1, .put 2, .get, .put 3, .get, .put 4, .get]).1.tail < 3 ∧
      (opsRun ringBufOp (ringBufReset (⟨fun _ => 0, 3, 0, 0⟩ : RingBuf Nat))
        [.put 1, .put 2, .get, .put 3, .get, .put 4, .get]).1.head < 3) ∧
    (ringBufValid (ringBufReset (⟨fun _ => 0, 3, 0, 0⟩ : RingBuf Nat))
        [.put 1, .put 2, .get, .put 3, .get, .put 4, .get] = true →
      (opsRun ringBufOp (ringBufReset (⟨fun _ => 0, 3, 0, 0⟩ : RingBuf Nat))
        [.put 1, .put 2, .get, .put 3, .get, .put 4, .get]).1.contents =
          (opsRun fifoOp [] [.put 1, .put 2, .get, .put 3, .get, .put 4, .get]).1 ∧
      (opsRun ringBufOp (ringBufReset (⟨fun _ => 0, 3, 0, 0⟩ : RingBuf Nat))
        [.put 1, .put 2, .get, .put 3, .get, .put 4, .get]).2 =
          (opsRun fifoOp [] [.put 1, .put 2, .get, .put 3, .get, .put 4, .get]).2) ∧
    (∀ rb' : RingBuf Nat, rb'.len = 3 → rb'.tail < 3 → rb'.head < 3 →
      (∀ val, (ringBufPut rb' val).tail = (ringBufPut rb' val).head ↔ rb'.count = 3 - 1) ∧
      ringBufValid rb' (List.replicate rb'.count .get) = true ∧
      txFramesDrain rb'.len rb' = opsRun ringBufOp rb' (List.replicate rb'.count .get))) :=
  ⟨by decide, by decide, by decide, @tx_frames_ring_is_fifo ⟨fun _ => 0, 3, 0, 0⟩ (by decide) _⟩

theorem txDescriptorsInit_of_init {q q' : TxQueue}
    (h : q'.txDescList = (txDescriptorsInit q).txDescList) :
    (txDescriptorsInit q').txDescList = q'.txDescList := by
  rw [txDescriptorsInit, h]
  simp only [txDescriptorsInit, GmacDescList.mk.injEq, and_true, true_and]
  funext i
  simp only [setAt_apply, foldl_setAt_range, GmacDesc.appendW1]
  split_ifs <;> simp [BitVec.or_assoc]

/-- What `tx_error_handler` does, from any queue whose `tx_frames` indices are in range: it
releases the packets from `tail` to `head` in order and leaves the initial TX state. -/
theorem txErrorHandler_spec (q : TxQueue) (ht : q.txFrames.tail < q.txFrames.len)
    (hh : q.txFrames.head < q.txFrames.len) :
    (txErrorHandler q).2 = q.txFrames.contents ∧
    (txErrorHandler q).1.txFrames = ringBufReset q.txFrames ∧
    (txErrorHandler q).1.txDescList.head = 0 ∧ (txErrorHandler q).1.txDescList.tail = 0 ∧
    (∀ i < q.txDescList.len, (txErrorHandler q).1.txDescList.buf i = txInitDesc q.txDescList.len i) ∧
    (txErrorHandler q).1.txDescSem = q.txDescList.len - 1 ∧
    (txErrorHandler q).1.errTxFlushedCount = q.errTxFlushedCount + 1 := by
  have hd := txFramesDrain_eq ht hh (le_of_lt (q.txFrames.count_lt (by omega)))
  simp only [txErrorHandler, hd, txDescriptorsInit_frames, txDescriptorsInit_sem,
    txDescriptorsInit_len, txDescriptorsInit_head, txDescriptorsInit_tail,
    txDescriptorsInit_flushed, kSemGive_iterate, TxQueue.semLimit, min_self, true_and, and_true]
  refine ⟨rfl, fun i hi => txDescriptorsInit_buf _ hi⟩

/-- A second `tx_error_handler` right after the first releases nothing and changes nothing but
the error counter. -/
theorem txErrorHandler_twice (q : TxQueue) :
    txErrorHandler (txErrorHandler q).1 =
      ({ (txErrorHandler q).1 with
          errTxFlushedCount := (txErrorHandler q).1.errTxFlushedCount + 1 }, []) := by
  conv_lhs => rw [txErrorHandler]
  rw [txFramesDrain_of_eq rfl]
  simp only [txErrorHandler, Prod.mk.injEq, and_true]
  congr 1
  exact txDescriptorsInit_of_init rfl

end SamGmac.Tx
