import SamGmac.RingBuf

/-! # The RX half of queue 0

`rx_descriptors_init`, `free_rx_bufs`, `rx_error_handler` and the two loops of `frame_get`, as
functions of the RX fields of `struct gmac_queue`. Buffers come from the RX data pool through
`net_pkt_get_reserve_rx_data` and `net_pkt_get_frag`; whether such a call fails is an input.
-/

namespace SamGmac.Rx

open SamGmac

/-- A `struct net_buf *` as the RX side stores it in `rx_frag_list`: `NULL`, buffer `b` of the
pool, or the address of the `rx_frag_list` array itself cast to one. -/
inductive BufPtr where
  | null
  | buf (b : Nat)
  | fragArray
  deriving DecidableEq, Repr

/-- The RX data pool: a call that does not fail hands out the fresh buffer `next`; `data b` is
the data pointer of buffer `b`. -/
structure RxPool where
  next : Nat
  data : Nat → BitVec 32

/-- A call of `net_pkt_get_reserve_rx_data` or `net_pkt_get_frag`: `NULL` when `ok` is false. -/
def RxPool.get (p : RxPool) (ok : Bool) : BufPtr × RxPool :=
  if ok then (.buf p.next, { p with next := p.next + 1 }) else (.null, p)

/-- `buf->data`. The driver never reads it through a pointer that is not a buffer. -/
def RxPool.dataOf (p : RxPool) : BufPtr → BitVec 32
  | .buf b => p.data b
  | _ => 0

/-- The RX fields of `struct gmac_queue`. -/
structure RxQueue where
  rxDescList : GmacDescList
  rxFragList : RingBuf BufPtr
  errRxFramesDropped : BitVec 32
  errRxFlushedCount : BitVec 32

/-- Write descriptor `i` of the ring. -/
def RxQueue.setDesc (q : RxQueue) (i : Nat) (d : GmacDesc) : RxQueue :=
  { q with rxDescList := { q.rxDescList with buf := setAt q.rxDescList.buf i d } }

/-- Store `v` in slot `i` of `rx_frag_list`. -/
def RxQueue.setFrag (q : RxQueue) (i : Nat) (v : BufPtr) : RxQueue :=
  { q with rxFragList := { q.rxFragList with buf := setAt q.rxFragList.buf i v } }

@[simp] theorem RxQueue.setDesc_len (q : RxQueue) (i : Nat) (d : GmacDesc) :
    (q.setDesc i d).rxDescList.len = q.rxDescList.len := rfl
@[simp] theorem RxQueue.setDesc_tail (q : RxQueue) (i : Nat) (d : GmacDesc) :
    (q.setDesc i d).rxDescList.tail = q.rxDescList.tail := rfl
@[simp] theorem RxQueue.setDesc_fragList (q : RxQueue) (i : Nat) (d : GmacDesc) :
    (q.setDesc i d).rxFragList = q.rxFragList := rfl
@[simp] theorem RxQueue.setFrag_descList (q : RxQueue) (i : Nat) (v : BufPtr) :
    (q.setFrag i v).rxDescList = q.rxDescList := rfl
@[simp] theorem RxQueue.setFrag_len (q : RxQueue) (i : Nat) (v : BufPtr) :
    (q.setFrag i v).rxFragList.len = q.rxFragList.len := rfl

theorem RxQueue.setDesc_buf (q : RxQueue) (t : Nat) (d : GmacDesc) (i : Nat) :
    (q.setDesc t d).rxDescList.buf i = if i = t then d else q.rxDescList.buf i := setAt_apply _ _ _ _
theorem RxQueue.setFrag_buf (q : RxQueue) (t : Nat) (v : BufPtr) (i : Nat) :
    (q.setFrag t v).rxFragList.buf i = if i = t then v else q.rxFragList.buf i := setAt_apply _ _ _ _

/-! ## rx_descriptors_init and free_rx_bufs -/

/-- `ENOBUFS`. -/
def enobufs : Int := 105

/-- The descriptor `rx_descriptors_init` writes for a buffer whose data pointer is `addr`:
owned by the GMAC, status cleared. -/
def rxFreshDesc (addr : BitVec 32) : GmacDesc := ⟨addr &&& gmacRxw0Addr, 0⟩

/-- One turn of the loop of `rx_descriptors_init`, for slot `i`: reserve a buffer (`ok i` says
whether the pool has one), record it in `rx_frag_list` and give descriptor `i` its address.
A failed reservation stops the loop with the state it reached. -/
def rxInitSlot (ok : Nat → Bool) (s : RxQueue × RxPool) (i : Nat) :
    Except (RxQueue × RxPool) (RxQueue × RxPool) :=
  match s.2.get (ok i) with
  | (.buf b, p) => .ok (((s.1.setFrag i (.buf b)).setDesc i (rxFreshDesc (p.data b))), p)
  | (_, p) => .error (s.1, p)

/-- `free_rx_bufs`. Each turn reads `rx_frag_list->buf`, the address of the array, where it
means `rx_frag_list->buf[i]`, and releases it when it is not `NULL`. -/
def freeRxBufs (rb : RingBuf BufPtr) : List BufPtr :=
  (List.range rb.len).filterMap fun _ =>
    let buf := BufPtr.fragArray
    if buf = .null then none else some buf

/-- `free_rx_bufs` releases the array `len` times, and no buffer. -/
theorem freeRxBufs_eq (rb : RingBuf BufPtr) : freeRxBufs rb = List.replicate rb.len .fragArray := by
  simp only [freeRxBufs, reduceCtorEq, if_false]
  rw [show (fun _ : Nat => some BufPtr.fragArray) = some ∘ fun _ => BufPtr.fragArray from rfl,
    List.filterMap_eq_map, List.map_const', List.length_range]

/-- `rx_descriptors_init`: its result, the queue and pool it leaves, and what it releases. On
success the `WRAP` bit goes on the last descriptor. -/
def rxDescriptorsInit (ok : Nat → Bool) (q : RxQueue) (p : RxPool) :
    Int × RxQueue × RxPool × List BufPtr :=
  let q := { q with rxDescList := { q.rxDescList with tail := 0 },
                    rxFragList := { q.rxFragList with tail := 0 } }
  match (List.range q.rxDescList.len).foldlM (rxInitSlot ok) (q, p) with
  | .error (q, p) => (-enobufs, q, p, freeRxBufs q.rxFragList)
  | .ok (q, p) =>
    let l := q.rxDescList
    (0, q.setDesc (l.len - 1) { l.buf (l.len - 1) with w0 := (l.buf (l.len - 1)).w0 ||| gmacRxw0Wrap },
      p, [])

/-- One successful turn of the loop of `rx_descriptors_init`. -/
theorem rxInitSlot_ok {ok : Nat → Bool} {q q' : RxQueue} {p p' : RxPool} {i : Nat}
    (h : rxInitSlot ok (q, p) i = .ok (q', p')) :
    p' = { p with next := p.next + 1 } ∧
    q' = (q.setFrag i (.buf p.next)).setDesc i (rxFreshDesc (p.data p.next)) := by
  unfold rxInitSlot RxPool.get at h
  by_cases hok : ok i
  · simp only [hok, if_true, Except.ok.injEq, Prod.mk.injEq] at h
    exact ⟨h.2.symm, h.1.symm⟩
  · simp [hok] at h

/-- The loop of `rx_descriptors_init` when every reservation succeeds: slot `i` holds the
`i`-th fresh buffer and descriptor `i` its address. -/
theorem rxInitLoop_ok {ok : Nat → Bool} {n : Nat} {q q' : RxQueue} {p p' : RxPool}
    (h : (List.range n).foldlM (rxInitSlot ok) (q, p) = .ok (q', p')) :
    p' = { p with next := p.next + n } ∧ q'.rxDescList.len = q.rxDescList.len ∧
    q'.rxDescList.tail = q.rxDescList.tail ∧ q'.rxFragList.tail = q.rxFragList.tail ∧
    ∀ i < n, q'.rxFragList.buf i = .buf (p.next + i) ∧
      q'.rxDescList.buf i = rxFreshDesc (p.data (p.next + i)) := by
  induction n generalizing q' p' with
  | zero =>
    simp only [List.range_zero, List.foldlM_nil] at h
    cases h
    simp
  | succ n ih =>
    rw [List.range_succ, List.foldlM_append] at h
    cases h₁ : (List.range n).foldlM (rxInitSlot ok) (q, p) with
    | error e => simp [h₁] at h; cases h
    | ok s₁ =>
      obtain ⟨q₁, p₁⟩ := s₁
      obtain ⟨rfl, hl, ht, hft, hi⟩ := ih h₁
      simp only [h₁, List.foldlM_cons, List.foldlM_nil] at h
      have h' : rxInitSlot ok (q₁, { p with next := p.next + n }) n = .ok (q', p') := by
        simp only [bind_pure] at h
        exact h
      obtain ⟨rfl, rfl⟩ := rxInitSlot_ok h'
      refine ⟨by simp [Nat.add_assoc], hl, ht, hft, fun i hi' => ?_⟩
      simp only [RxQueue.setDesc_buf, RxQueue.setFrag_buf, RxQueue.setDesc_fragList,
        RxQueue.setFrag_descList]
      by_cases hin : i = n
      · subst hin; simp
      · simp only [hin, if_false]
        exact hi i (by omega)

/-- The descriptor `rx_descriptors_init` leaves in slot `i` of a ring of `len` slots, for a
buffer whose data pointer is `addr`. -/
def rxInitDesc (len i : Nat) (addr : BitVec 32) : GmacDesc :=
  if i = len - 1 then ⟨(addr &&& gmacRxw0Addr) ||| gmacRxw0Wrap, 0⟩ else rxFreshDesc addr

theorem rxInitDesc_addr (len i : Nat) (a : BitVec 32) :
    (rxInitDesc len i a).w0 &&& gmacRxw0Addr = a &&& gmacRxw0Addr := by
  unfold rxInitDesc rxFreshDesc
  split
  · rw [or_wrap_and_rxw0Addr, BitVec.and_assoc, BitVec.and_self]
  · rw [BitVec.and_assoc, BitVec.and_self]

theorem rxInitDesc_wrap (len i : Nat) (a : BitVec 32) :
    flag (rxInitDesc len i a).w0 gmacRxw0Wrap = decide (i = len - 1) := by
  unfold rxInitDesc rxFreshDesc
  split <;> simp [flag_rxw0Wrap, *]

theorem rxDescriptorsInit_ok {ok : Nat → Bool} {q : RxQueue} {p : RxPool}
    (h : (rxDescriptorsInit ok q p).1 = 0) :
    (rxDescriptorsInit ok q p).2.2.1 = { p with next := p.next + q.rxDescList.len } ∧
    (rxDescriptorsInit ok q p).2.1.rxDescList.len = q.rxDescList.len ∧
    (rxDescriptorsInit ok q p).2.1.rxDescList.tail = 0 ∧
    (rxDescriptorsInit ok q p).2.1.rxFragList.tail = 0 ∧
    ∀ i < q.rxDescList.len, (rxDescriptorsInit ok q p).2.1.rxFragList.buf i = .buf (p.next + i) ∧
      (rxDescriptorsInit ok q p).2.1.rxDescList.buf i =
        rxInitDesc q.rxDescList.len i (p.data (p.next + i)) := by
  unfold rxDescriptorsInit at h ⊢
  dsimp only at h ⊢
  split at h
  · simp [enobufs] at h
  · rename_i q₁ p₁ hloop
    obtain ⟨rfl, hl, ht, hft, hi⟩ := rxInitLoop_ok hloop
    simp only at hl ht hft
    refine ⟨rfl, by simp [hl], by simp [ht], by simp [hft], fun i hi' => ⟨(hi i hi').1, ?_⟩⟩
    simp only [RxQueue.setDesc_buf, hl, rxInitDesc]
    split
    · subst_vars; simp [(hi _ hi').2, rxFreshDesc]
    · exact (hi i hi').2

/-! ## rx_error_handler -/

/-- `rx_error_handler` on the queue: both tails back to 0, every status word cleared and every
descriptor handed back to the GMAC with its address and `WRAP` bit kept. -/
def rxErrorHandler (q : RxQueue) : RxQueue :=
  let q := { q with errRxFlushedCount := q.errRxFlushedCount + 1 }
  let l := q.rxDescList
  let buf := (List.range l.len).foldl
    (fun b i => setAt b i ⟨(b i).w0 &&& ~~~gmacRxw0Ownership, 0⟩) l.buf
  { q with rxDescList := { l with buf, tail := 0 }, rxFragList := { q.rxFragList with tail := 0 } }

/-- The loop of `rx_error_handler` touches each slot once, with the old word. -/
theorem foldl_clear_ownership (n : Nat) (f : Nat → GmacDesc) (j : Nat) :
    ((List.range n).foldl (fun b i => setAt b i ⟨(b i).w0 &&& ~~~gmacRxw0Ownership, 0⟩) f) j =
      if j < n then ⟨(f j).w0 &&& ~~~gmacRxw0Ownership, 0⟩ else f j := by
  induction n generalizing j with
  | zero => simp
  | succ n ih =>
    rw [List.range_succ, List.foldl_append, List.foldl_cons, List.foldl_nil, setAt_apply, ih, ih]
    by_cases h : j = n
    · simp [h]
    · have : j < n + 1 ↔ j < n := by omega
      simp only [h, if_false, this]

theorem rxErrorHandler_buf (q : RxQueue) (i : Nat) :
    (rxErrorHandler q).rxDescList.buf i =
      if i < q.rxDescList.len then ⟨(q.rxDescList.buf i).w0 &&& ~~~gmacRxw0Ownership, 0⟩
      else q.rxDescList.buf i :=
  foldl_clear_ownership _ _ _

@[simp] theorem rxErrorHandler_len (q : RxQueue) :
    (rxErrorHandler q).rxDescList.len = q.rxDescList.len := rfl
@[simp] theorem rxErrorHandler_tail (q : RxQueue) : (rxErrorHandler q).rxDescList.tail = 0 := rfl
@[simp] theorem rxErrorHandler_fragList (q : RxQueue) :
    (rxErrorHandler q).rxFragList = { q.rxFragList with tail := 0 } := rfl
@[simp] theorem rxErrorHandler_flushed (q : RxQueue) :
    (rxErrorHandler q).errRxFlushedCount = q.errRxFlushedCount + 1 := rfl
@[simp] theorem rxErrorHandler_dropped (q : RxQueue) :
    (rxErrorHandler q).errRxFramesDropped = q.errRxFramesDropped := rfl

/-- Clearing `OWNERSHIP` keeps the address bits and `WRAP`. -/
theorem clear_ownership_getLsbD (w : BitVec 32) (i : Nat) :
    (w &&& ~~~gmacRxw0Ownership).getLsbD i = (w.getLsbD i && decide (i ≠ 0) && decide (i < 32)) := by
  by_cases h : i < 32
  · simp only [BitVec.getLsbD_and, BitVec.getLsbD_not, getLsbD_rxw0Ownership, h]
    by_cases h0 : i = 0 <;> simp [h0]
  · simp [BitVec.getLsbD_ge w i (by omega), h]

/-- What `rx_error_handler` does: it leaves `rx_frag_list` and every address and `WRAP` bit as
they were, clears every status word and `OWNERSHIP` bit, and puts both tails at 0. -/
theorem rxErrorHandler_spec (q : RxQueue) :
    (rxErrorHandler q).rxFragList.buf = q.rxFragList.buf ∧
    (rxErrorHandler q).rxDescList.tail = 0 ∧ (rxErrorHandler q).rxFragList.tail = 0 ∧
    ∀ i < q.rxDescList.len,
      ((rxErrorHandler q).rxDescList.buf i).w1 = 0 ∧
      flag ((rxErrorHandler q).rxDescList.buf i).w0 gmacRxw0Ownership = false ∧
      ((rxErrorHandler q).rxDescList.buf i).w0 &&& gmacRxw0Addr =
        (q.rxDescList.buf i).w0 &&& gmacRxw0Addr ∧
      flag ((rxErrorHandler q).rxDescList.buf i).w0 gmacRxw0Wrap =
        flag (q.rxDescList.buf i).w0 gmacRxw0Wrap := by
  refine ⟨rfl, rfl, rfl, fun i hi => ?_⟩
  rw [rxErrorHandler_buf, if_pos hi]
  refine ⟨rfl, ?_, ?_, ?_⟩
  · simp [flag_rxw0Ownership, clear_ownership_getLsbD]
  · ext j
    simp only [BitVec.getLsbD_and, clear_ownership_getLsbD, getLsbD_rxw0Addr]
    by_cases h0 : (j : Nat) = 0 <;> simp [h0, j.isLt]
  · simp [flag_rxw0Wrap, clear_ownership_getLsbD]

/-- A second `rx_error_handler` right after the first changes nothing but the error counter. -/
theorem rxErrorHandler_twice (q : RxQueue) :
    rxErrorHandler (rxErrorHandler q) =
      { rxErrorHandler q with errRxFlushedCount := (rxErrorHandler q).errRxFlushedCount + 1 } := by
  have hbuf : (rxErrorHandler (rxErrorHandler q)).rxDescList.buf = (rxErrorHandler q).rxDescList.buf := by
    funext i
    rw [rxErrorHandler_buf, rxErrorHandler_len]
    split
    · rw [rxErrorHandler_buf, if_pos ‹_›]
      simp only [GmacDesc.mk.injEq, and_true]
      rw [BitVec.and_assoc, BitVec.and_self]
    · rfl
  cases q
  simp only [rxErrorHandler] at hbuf ⊢
  rw [hbuf]

/-! ## frame_get -/

/-- The first loop of `frame_get`: from `tail`, over the descriptors the GMAC has handed back,
until one has `EOF`; true when it finds one. One turn of fuel per descriptor: the source loop
has no bound, and around a ring of owned descriptors with no `EOF` it would not stop. -/
def rxFrameScan (l : GmacDescList) : Nat → Nat → Bool
  | 0, _ => false
  | fuel + 1, tail =>
    let d := l.buf tail
    if flag d.w0 gmacRxw0Ownership then
      flag d.w1 gmacRxw1Eof || rxFrameScan l fuel (moduloInc tail l.len)
    else false

/-- A fragment of a frame `frame_get` builds: the buffer and the length `net_buf_add` gave it. -/
abbrev Frag := BufPtr × BitVec 32

/-- The locals of `frame_get`'s second loop: `tail`, the frame (`none` once it is `NULL`), and
`frame_len`; `complete` is `frame_is_complete`. -/
structure FrameGet where
  tail : Nat
  rxFrame : Option (List Frag)
  frameLen : BitVec 32
  complete : Bool
  deriving DecidableEq, Repr

/-- `frame_get` up to its second loop, with `okFrame` the outcome of `net_pkt_get_reserve_rx`:
`none` when the first loop finds no complete frame. -/
def frameGetStart (q : RxQueue) (okFrame : Bool) : Option FrameGet :=
  let l := q.rxDescList
  if rxFrameScan l l.len l.tail then
    some { tail := l.tail, rxFrame := if okFrame then some [] else none, frameLen := 0,
           complete := false }
  else none

theorem frameGetStart_some {q : RxQueue} {okFrame : Bool} {fg : FrameGet}
    (h : frameGetStart q okFrame = some fg) :
    fg.tail = q.rxDescList.tail ∧ (∀ fr, fg.rxFrame = some fr → fr = []) ∧
    fg.frameLen = 0 ∧ fg.complete = false := by
  unfold frameGetStart at h
  by_cases hs : rxFrameScan q.rxDescList q.rxDescList.len q.rxDescList.tail
  · simp only [hs, if_true, Option.some.injEq] at h
    subst h
    refine ⟨rfl, fun fr hfr => ?_, rfl, rfl⟩
    cases okFrame <;> simp at hfr
    exact hfr
  · simp [hs] at h

/-- The guard of `frame_get`'s second loop. -/
def FrameGet.more (q : RxQueue) (fg : FrameGet) : Bool :=
  flag (q.rxDescList.buf fg.tail).w0 gmacRxw0Ownership && !fg.complete

/-- `frag_len` for the descriptor at `fg.tail`: the rest of the frame's length on the `EOF`
descriptor, `CONFIG_NET_BUF_DATA_SIZE` on the others. -/
def fragLenAt (dataSize : Nat) (q : RxQueue) (fg : FrameGet) : BitVec 32 :=
  let d := q.rxDescList.buf fg.tail
  if flag d.w1 gmacRxw1Eof then (d.w1 &&& gmacRxw1Len) - fg.frameLen else BitVec.ofNat 32 dataSize

/-- The loop's locals after a turn, with the frame `rxFrame`. -/
def FrameGet.next (dataSize : Nat) (q : RxQueue) (fg : FrameGet) (rxFrame : Option (List Frag)) :
    FrameGet :=
  { tail := moduloInc fg.tail q.rxDescList.len, rxFrame,
    frameLen := fg.frameLen + fragLenAt dataSize q fg,
    complete := flag (q.rxDescList.buf fg.tail).w1 gmacRxw1Eof }

/-- The descriptor `frame_get` writes back at `tail` for the buffer `frag`: status cleared,
then the buffer's address, with `WRAP` on the last slot. -/
def rxGiveBack (p : RxPool) (len tail : Nat) (frag : BufPtr) : GmacDesc :=
  ⟨(p.dataOf frag &&& gmacRxw0Addr) ||| (if tail = len - 1 then gmacRxw0Wrap else 0), 0⟩

theorem rxGiveBack_addr (p : RxPool) (len tail : Nat) (frag : BufPtr) :
    (rxGiveBack p len tail frag).w0 &&& gmacRxw0Addr = p.dataOf frag &&& gmacRxw0Addr := by
  unfold rxGiveBack
  split
  · rw [or_wrap_and_rxw0Addr, BitVec.and_assoc, BitVec.and_self]
  · simp [BitVec.and_assoc]

theorem rxGiveBack_wrap (p : RxPool) (len tail : Nat) (frag : BufPtr) :
    flag (rxGiveBack p len tail frag).w0 gmacRxw0Wrap = decide (tail = len - 1) := by
  unfold rxGiveBack
  split <;> simp [flag_rxw0Wrap, *]

theorem rxGiveBack_ownership (p : RxPool) (len tail : Nat) (frag : BufPtr) :
    flag (rxGiveBack p len tail frag).w0 gmacRxw0Ownership = false := by
  unfold rxGiveBack
  split <;> simp [flag_rxw0Ownership]

/-- One turn of `frame_get`'s second loop at `fg.tail`, where `dataSize` is
`CONFIG_NET_BUF_DATA_SIZE` and `okFrag` the outcome of `net_pkt_get_frag`. When that call
fails the frame is released and dropped: the last component is what `net_pkt_unref`
releases. The status word is cleared before the address word is written; no one else writes
the descriptor in between, since the GMAC keeps off a descriptor it has handed back. -/
def frameGetTurn (dataSize : Nat) (okFrag : Bool) (q : RxQueue) (p : RxPool) (fg : FrameGet) :
    RxQueue × RxPool × FrameGet × Option (List Frag) :=
  let frag := q.rxFragList.buf fg.tail
  let (q', p', rxFrame, frag, released) : RxQueue × RxPool × Option (List Frag) × BufPtr ×
      Option (List Frag) :=
    match fg.rxFrame with
    | none => (q, p, none, frag, none)
    | some fr =>
      match p.get okFrag with
      | (.null, p) => ({ q with errRxFramesDropped := q.errRxFramesDropped + 1 }, p, none, frag, some fr)
      | (newFrag, p) =>
        (q.setFrag fg.tail newFrag, p, some (fr ++ [(frag, fragLenAt dataSize q fg)]), newFrag, none)
  (q'.setDesc fg.tail (rxGiveBack p' q.rxDescList.len fg.tail frag), p', fg.next dataSize q rxFrame,
    released)

section
variable {dataSize : Nat} {q : RxQueue} {p : RxPool} {fg : FrameGet}

/-- A turn after the frame is `NULL` gives the descriptor back with the same buffer. -/
theorem frameGetTurn_of_none (okFrag : Bool) (h : fg.rxFrame = none) :
    frameGetTurn dataSize okFrag q p fg =
      (q.setDesc fg.tail (rxGiveBack p q.rxDescList.len fg.tail (q.rxFragList.buf fg.tail)), p,
        fg.next dataSize q none, none) := by
  simp [frameGetTurn, h]

/-- A turn whose `net_pkt_get_frag` fails drops the frame and keeps the buffer in the ring. -/
theorem frameGetTurn_drop {fr : List Frag} (h : fg.rxFrame = some fr) :
    frameGetTurn dataSize false q p fg =
      ({ q with errRxFramesDropped := q.errRxFramesDropped + 1 }.setDesc fg.tail
          (rxGiveBack p q.rxDescList.len fg.tail (q.rxFragList.buf fg.tail)), p,
        fg.next dataSize q none, some fr) := by
  simp [frameGetTurn, h, RxPool.get]

/-- A turn whose `net_pkt_get_frag` succeeds links the buffer into the frame and puts the fresh
one in its place. -/
theorem frameGetTurn_link {fr : List Frag} (h : fg.rxFrame = some fr) :
    frameGetTurn dataSize true q p fg =
      ((q.setFrag fg.tail (.buf p.next)).setDesc fg.tail
          (rxGiveBack { p with next := p.next + 1 } q.rxDescList.len fg.tail (.buf p.next)),
        { p with next := p.next + 1 },
        fg.next dataSize q (some (fr ++ [(q.rxFragList.buf fg.tail, fragLenAt dataSize q fg)])),
        none) := by
  simp [frameGetTurn, h, RxPool.get]

end

/-- The end of `frame_get`: the descriptor tail moves to where the loop stopped. -/
def frameGetEnd (q : RxQueue) (fg : FrameGet) : RxQueue :=
  { q with rxDescList := { q.rxDescList with tail := fg.tail } }

end SamGmac.Rx
