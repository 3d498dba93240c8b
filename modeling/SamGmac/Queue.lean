import SamGmac.Tx.Ring
import SamGmac.Rx.Buffers

/-! # Queue 0

`struct gmac_queue` for queue 0 with both its rings: `queue_init`, the two error handlers of
`queue0_isr`, and the `WRAP` bits of both rings along any run of the TX and the RX side.
-/

namespace SamGmac

open SamGmac.Tx SamGmac.Rx

/-- `struct gmac_queue` for queue 0: its TX and its RX fields. -/
structure GmacQueue where
  tx : TxQueue
  rx : RxQueue

/-- `queue_init`: `rx_descriptors_init`, which may fail; then `tx_descriptors_init`, the
semaphore at `len - 1` and the error counters at 0. With the result, the queue, the pool, and
what `free_rx_bufs` released. -/
def queueInit (ok : Nat → Bool) (q : GmacQueue) (p : RxPool) :
    Int × GmacQueue × RxPool × List BufPtr :=
  match rxDescriptorsInit ok q.rx p with
  | (result, rx, p, released) =>
    if result < 0 then (result, { q with rx }, p, released)
    else
      (0, { tx := { txDescriptorsInit q.tx with txDescSem := q.tx.txDescList.len - 1,
                                                 errTxFlushedCount := 0 },
            rx := { rx with errRxFramesDropped := 0, errRxFlushedCount := 0 } }, p, released)

theorem rxDescriptorsInit_released {ok : Nat → Bool} {q : RxQueue} {p : RxPool}
    (h : (rxDescriptorsInit ok q p).1 = 0) : (rxDescriptorsInit ok q p).2.2.2 = [] := by
  unfold rxDescriptorsInit at h ⊢
  dsimp only at h ⊢
  split at h
  · simp [enobufs] at h
  · rfl

/-- `queue_init` when `rx_descriptors_init` succeeds. -/
theorem queueInit_of_ok {ok : Nat → Bool} {q : GmacQueue} {p : RxPool}
    (h : (rxDescriptorsInit ok q.rx p).1 = 0) :
    queueInit ok q p =
      (0, { tx := (txInit q.tx).q,
            rx := { (rxDescriptorsInit ok q.rx p).2.1 with
                    errRxFramesDropped := 0, errRxFlushedCount := 0 } },
        (rxDescriptorsInit ok q.rx p).2.2.1, []) := by
  have hrel := rxDescriptorsInit_released h
  unfold queueInit
  split
  · rename_i r rx p' rel heq
    simp only [heq] at h hrel ⊢
    subst h hrel
    rfl

/-- What `queue_init` releases is what `rx_descriptors_init` releases. -/
theorem queueInit_released (ok : Nat → Bool) (q : GmacQueue) (p : RxPool) :
    (queueInit ok q p).2.2.2 = (rxDescriptorsInit ok q.rx p).2.2.2 := by
  unfold queueInit
  split
  · rename_i heq
    rw [heq]
    split <;> rfl

/-! ## Recovery -/

/-- `tx_error_handler`, from a `tx_frames` whose indices lie in it: it releases the packets from
`tail` to `head`, oldest first, and leaves `tx_frames` empty, the ring as
`tx_descriptors_init` makes it, the semaphore at `len - 1` (no thread waits on it) and one more
flush counted. `rx_error_handler`: every buffer stays in its slot and every address and `WRAP`
bit in its descriptor; every status word and `OWNERSHIP` bit and both tails are cleared. Either
handler run again right away releases nothing and changes only its counter. -/
theorem error_handlers_reset_rings (q : GmacQueue) (ht : q.tx.txFrames.tail < q.tx.txFrames.len)
    (hh : q.tx.txFrames.head < q.tx.txFrames.len) :
    ((txErrorHandler q.tx).2 = q.tx.txFrames.contents ∧
      (txErrorHandler q.tx).2.length = q.tx.txFrames.count ∧
      (txErrorHandler q.tx).1.txFrames = ringBufReset q.tx.txFrames ∧
      (txErrorHandler q.tx).1.txDescList.head = 0 ∧ (txErrorHandler q.tx).1.txDescList.tail = 0 ∧
      (∀ i < q.tx.txDescList.len, ((txErrorHandler q.tx).1.txDescList.buf i).w0 = 0 ∧
        ((txErrorHandler q.tx).1.txDescList.buf i).w1 =
          if i = q.tx.txDescList.len - 1 then gmacTxw1Used ||| gmacTxw1Wrap else gmacTxw1Used) ∧
      (txErrorHandler q.tx).1.txDescSem = q.tx.txDescList.len - 1 ∧
      (txErrorHandler q.tx).1.errTxFlushedCount = q.tx.errTxFlushedCount + 1) ∧
    txErrorHandler (txErrorHandler q.tx).1 =
      ({ (txErrorHandler q.tx).1 with
          errTxFlushedCount := (txErrorHandler q.tx).1.errTxFlushedCount + 1 }, []) ∧
    ((rxErrorHandler q.rx).rxFragList.buf = q.rx.rxFragList.buf ∧
      (rxErrorHandler q.rx).rxFragList.tail = 0 ∧ (rxErrorHandler q.rx).rxDescList.tail = 0 ∧
      (∀ i < q.rx.rxDescList.len,
        ((rxErrorHandler q.rx).rxDescList.buf i).w0 &&& gmacRxw0Addr =
          (q.rx.rxDescList.buf i).w0 &&& gmacRxw0Addr ∧
        flag ((rxErrorHandler q.rx).rxDescList.buf i).w0 gmacRxw0Wrap =
          flag (q.rx.rxDescList.buf i).w0 gmacRxw0Wrap ∧
        ((rxErrorHandler q.rx).rxDescList.buf i).w1 = 0 ∧
        flag ((rxErrorHandler q.rx).rxDescList.buf i).w0 gmacRxw0Ownership = false) ∧
      (rxErrorHandler q.rx).errRxFlushedCount = q.rx.errRxFlushedCount + 1) ∧
    rxErrorHandler (rxErrorHandler q.rx) =
      { rxErrorHandler q.rx with errRxFlushedCount := (rxErrorHandler q.rx).errRxFlushedCount + 1 } := by
  obtain ⟨hrel, hfr, hhd, htl, hbuf, hsem, hcnt⟩ := txErrorHandler_spec q.tx ht hh
  obtain ⟨hfrag, hrt, hrft, hdesc⟩ := rxErrorHandler_spec q.rx
  refine ⟨⟨hrel, by simp [hrel, RingBuf.contents], hfr, hhd, htl, fun i hi => ?_, hsem, hcnt⟩,
    txErrorHandler_twice q.tx, ⟨hfrag, hrft, hrt, fun i hi => ?_, rxErrorHandler_flushed _⟩,
    rxErrorHandler_twice q.rx⟩
  · rw [hbuf i hi]; exact ⟨rfl, rfl⟩
  · obtain ⟨h1, hown, haddr, hwrap⟩ := hdesc i hi
    exact ⟨haddr, hwrap, h1, hown⟩

/-- Packets 103 and 100 wait in a `tx_frames` that wraps past its end; recovery releases them
oldest first. -/
theorem error_handlers_reset_rings_wrapped :
    (⟨fun i => 100 + i, 4, 1, 3⟩ : RingBuf Nat).tail < 4 ∧ (⟨fun i => 100 + i, 4, 1, 3⟩ : RingBuf Nat).head < 4 ∧
      (txErrorHandler { staticTxQueue 4 4 with txFrames := ⟨fun i => 100 + i, 4, 1, 3⟩ }).2 =
        [103, 100] :=
  ⟨by decide, by decide, (error_handlers_reset_rings
    ⟨{ staticTxQueue 4 4 with txFrames := ⟨fun i => 100 + i, 4, 1, 3⟩ }, staticRxQueue 4⟩
    (by decide) (by decide)).1.1.trans (by decide)⟩

/-! ## Both sides as one system -/

/-- Queue 0 as a system: its TX side and its RX side. They share no state, and `queue0_isr`
serves one after the other, so their steps interleave freely. -/
structure QueueSys where
  tx : TxSys
  rx : RxSys

/-- One step of either side. -/
inductive QueueStep where
  | tx (e : TxStep)
  | rx (e : RxStep)

def queueStep (dataSize : Nat) (s : QueueSys) : QueueStep → Option QueueSys
  | .tx e => (txStep s.tx e).map fun tx => { s with tx }
  | .rx e => (rxStep dataSize s.rx e).map fun rx => { s with rx }

/-- Queue 0 right after a `queue_init` that succeeded, from its static storage `q`. -/
def queueSysInit (ok : Nat → Bool) (q : GmacQueue) (p : RxPool) (mem : Nat → List (BitVec 8)) :
    Option QueueSys :=
  (rxInit ok q.rx p mem).map fun rx => ⟨txInit q.tx, rx⟩

/-- The system starts in the state `queue_init` leaves. -/
theorem queueSysInit_queueInit {ok : Nat → Bool} {q : GmacQueue} {p : RxPool}
    {mem : Nat → List (BitVec 8)} {s : QueueSys} (h : queueSysInit ok q p mem = some s) :
    queueInit ok q p = (0, ⟨s.tx.q, s.rx.q⟩, s.rx.pool, []) := by
  obtain ⟨rx, hrx, rfl⟩ := Option.map_eq_some'.mp h
  obtain ⟨h0, rfl⟩ := rxInit_eq hrx
  exact queueInit_of_ok h0

/-- The states a run from `s₀` reaches. -/
inductive QueueReachable (dataSize : Nat) (s₀ : QueueSys) : QueueSys → Prop where
  | init : QueueReachable dataSize s₀ s₀
  | step {s s' : QueueSys} (e : QueueStep) : QueueReachable dataSize s₀ s →
      queueStep dataSize s e = some s' → QueueReachable dataSize s₀ s'

/-- A run: the steps in order, each of which can happen. -/
def queueRun (dataSize : Nat) (s : QueueSys) (steps : List QueueStep) : Option QueueSys :=
  steps.foldlM (queueStep dataSize) s

theorem QueueReachable.of_queueRun {dataSize : Nat} {s₀ s s' : QueueSys} (steps : List QueueStep)
    (hs : QueueReachable dataSize s₀ s) (h : queueRun dataSize s steps = some s') :
    QueueReachable dataSize s₀ s' := by
  induction steps generalizing s with
  | nil => cases h; exact hs
  | cons e steps ih =>
    simp only [queueRun, List.foldlM_cons, Option.bind_eq_bind, Option.bind_eq_some] at h
    obtain ⟨s₁, h₁, h⟩ := h
    exact ih (hs.step e h₁) h

/-- A run of queue 0 is a run of each side. -/
theorem QueueReachable.sides {dataSize : Nat} {q : TxQueue} {s₀ s : QueueSys}
    (h : QueueReachable dataSize s₀ s) (h₀ : s₀.tx = txInit q) :
    TxReachable q s.tx ∧ RxReachable dataSize s₀.rx s.rx := by
  induction h with
  | init => exact ⟨h₀ ▸ .init, .init⟩
  | step e _ hs ih =>
    cases e with
    | tx e =>
      obtain ⟨tx, htx, rfl⟩ := Option.map_eq_some'.mp hs
      exact ⟨ih.1.step e htx, ih.2⟩
    | rx e =>
      obtain ⟨rx, hrx, rfl⟩ := Option.map_eq_some'.mp hs
      exact ⟨ih.1, ih.2.step e hrx⟩

/-! ## The `WRAP` bits -/

/-- From a `queue_init` that succeeded, along any run of both sides: TX descriptor `i` has
`WRAP` iff it is the last of the TX ring, and RX descriptor `i` iff it is the last of the RX
ring. -/
theorem wrap_only_on_last_descriptor {ok : Nat → Bool} {q : GmacQueue} {p : RxPool}
    {mem : Nat → List (BitVec 8)} {dataSize : Nat} {s₀ s : QueueSys}
    (hR : 0 < q.rx.rxDescList.len) (h₀ : queueSysInit ok q p mem = some s₀)
    (h : QueueReachable dataSize s₀ s) :
    (∀ i < s.tx.q.txDescList.len,
      flag (s.tx.q.txDescList.buf i).w1 gmacTxw1Wrap = true ↔ i = s.tx.q.txDescList.len - 1) ∧
    (∀ i < s.rx.q.rxDescList.len,
      flag (s.rx.q.rxDescList.buf i).w0 gmacRxw0Wrap = true ↔ i = s.rx.q.rxDescList.len - 1) := by
  obtain ⟨rx, hrx, rfl⟩ := Option.map_eq_some'.mp h₀
  obtain ⟨htx, hrxs⟩ := h.sides rfl
  have hi := (RxInv.init hR hrx).reachable hrxs
  refine ⟨fun i hi' => by simp [htx.wrapOk i hi'], fun i hi' => ?_⟩
  rw [hi.wrap i (hi.len ▸ hi'), hi.len]
  simp

/-- Four packets go out one after the other, the last posted on slot 3 and the head back at 0;
`frame_get` takes two frames of two buffers each, the second from slots 2 and 3, and gives
slot 3 back with `WRAP`; the DMA writes slot 0 again, and `rx_error_handler` rewrites the ring. -/
theorem wrap_only_on_last_descriptor_across_wrap :
    ∃ s₀ s, queueSysInit (fun _ => true) ⟨staticTxQueue 4 4, staticRxQueue 4⟩
        ⟨0, fun b => BitVec.ofNat 32 b <<< 2⟩ (fun _ => []) = some s₀ ∧
      queueRun 64 s₀
        (([.call 100 [⟨0x20001000, 60⟩] 0, .run 0, .run 0, .run 0, .run 0, .run 0, .dma, .dma, .isr,
          .call 101 [⟨0x20001000, 60⟩] 0, .run 1, .run 1, .run 1, .run 1, .run 1, .dma, .dma, .isr,
          .call 102 [⟨0x20001000, 60⟩] 0, .run 2, .run 2, .run 2, .run 2, .run 2, .dma, .dma, .isr,
          .call 103 [⟨0x20001000, 60⟩] 0, .run 3, .run 3, .run 3, .run 3, .run 3, .dma, .dma,
          .isr] : List TxStep).map .tx ++
         ([.receive (List.replicate 70 1), .dma, .dma, .scan true, .turn true, .turn true, .finish,
          .receive (List.replicate 70 2), .dma, .dma, .scan true, .turn true, .turn true, .finish,
          .receive (List.replicate 70 3), .dma, .error] : List RxStep).map .rx) = some s ∧
      (s.tx.released, s.tx.q.txDescList.head, s.rx.returned.length, s.rx.q.errRxFlushedCount) =
        ([100, 101, 102, 103], 0, 2, 1) ∧
      (∀ i < s.tx.q.txDescList.len, flag (s.tx.q.txDescList.buf i).w1 gmacTxw1Wrap = true ↔
        i = s.tx.q.txDescList.len - 1) ∧
      (∀ i < s.rx.q.rxDescList.len, flag (s.rx.q.rxDescList.buf i).w0 gmacRxw0Wrap = true ↔
        i = s.rx.q.rxDescList.len - 1) := by
  have hrun : ((queueSysInit (fun _ => true) ⟨staticTxQueue 4 4, staticRxQueue 4⟩
      ⟨0, fun b => BitVec.ofNat 32 b <<< 2⟩ (fun _ => [])).bind fun s₀ => queueRun 64 s₀
        (([.call 100 [⟨0x20001000, 60⟩] 0, .run 0, .run 0, .run 0, .run 0, .run 0, .dma, .dma, .isr,
          .call 101 [⟨0x20001000, 60⟩] 0, .run 1, .run 1, .run 1, .run 1, .run 1, .dma, .dma, .isr,
          .call 102 [⟨0x20001000, 60⟩] 0, .run 2, .run 2, .run 2, .run 2, .run 2, .dma, .dma, .isr,
          .call 103 [⟨0x20001000, 60⟩] 0, .run 3, .run 3, .run 3, .run 3, .run 3, .dma, .dma,
          .isr] : List TxStep).map .tx ++
         ([.receive (List.replicate 70 1), .dma, .dma, .scan true, .turn true, .turn true, .finish,
          .receive (List.replicate 70 2), .dma, .dma, .scan true, .turn true, .turn true, .finish,
          .receive (List.replicate 70 3), .dma, .error] : List RxStep).map .rx)).map
      (fun s => (s.tx.released, s.tx.q.txDescList.head, s.rx.returned.length,
        s.rx.q.errRxFlushedCount)) = some ([100, 101, 102, 103], 0, 2, 1) := by
    simp only [queueSysInit, rxInit, rxDescriptorsInit, staticRxQueue, txInit, staticTxQueue,
      txDescriptorsInit, List.range, List.range.loop, List.foldlM, List.foldl]
    decide
  obtain ⟨s, hs, hobs⟩ := Option.map_eq_some'.mp hrun
  obtain ⟨s₀, h₀, hs⟩ := Option.bind_eq_some.mp hs
  exact ⟨s₀, s, h₀, hs, hobs,
    wrap_only_on_last_descriptor (by decide) h₀ (QueueReachable.of_queueRun _ .init hs)⟩

end SamGmac
