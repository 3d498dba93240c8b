import SamGmac.Rx.Queue

/-! # Queue 0's RX side as a system

The RX half of `queue0_isr` (`rx_error_handler`, or `eth_rx` and its `frame_get` calls) and the
GMAC's receive DMA, interleaved in any order. `frame_get` is cut at its descriptors: the first
loop, one step per descriptor of the second loop, and its end. The ISR runs one handler at a
time, so the driver's steps interleave only with the DMA's. A step that cannot happen is `none`.
-/

namespace SamGmac.Rx

open SamGmac

/-- The receive DMA: the descriptor it writes next, and the frame it is receiving with how many
of its bytes are already written. -/
structure RxDma where
  ptr : Nat
  frame : Option (List (BitVec 8) × Nat)

/-- Queue 0's RX side: the queue, the pool, the `frame_get` call in progress, the DMA, the
buffer memory by address, and ghost records: the frames the DMA finished, and the frames
`frame_get` returned or released, in order. -/
structure RxSys where
  q : RxQueue
  pool : RxPool
  fg : Option FrameGet
  dma : RxDma
  mem : Nat → List (BitVec 8)
  completed : List (List (BitVec 8))
  returned : List (List Frag)
  released : List (List Frag)

/-- One atomic step. -/
inductive RxStep where
  /-- a frame starts to arrive at the GMAC -/
  | receive (bytes : List (BitVec 8))
  /-- the DMA writes back one descriptor -/
  | dma
  /-- `eth_rx` calls `frame_get`, which scans for a complete frame; `okFrame` is the outcome of
  `net_pkt_get_reserve_rx` -/
  | scan (okFrame : Bool)
  /-- `frame_get` handles one descriptor; `okFrag` is the outcome of `net_pkt_get_frag` -/
  | turn (okFrag : Bool)
  /-- `frame_get` returns; `eth_rx` passes the frame to `net_recv_data` -/
  | finish
  /-- `queue0_isr` sees an RX error bit and runs `rx_error_handler` -/
  | error
  /-- the GMAC drops the frame it is receiving -/
  | drop
  deriving DecidableEq, Repr

/-! ## The receive DMA -/

/-- `64 · DRBS`, the bytes the DMA puts in one buffer: `queue_init` programs
`DRBS = CONFIG_NET_BUF_DATA_SIZE >> 6`. -/
def rxBufSize (dataSize : Nat) : Nat := 64 * (dataSize >>> 6)

/-- The status word the DMA writes back: `SOF` on a frame's first descriptor, `EOF` and the
frame's length on its last. -/
def rxStatus (first last : Bool) (n : Nat) : BitVec 32 :=
  (if first then gmacRxw1Sof else 0) |||
    (if last then gmacRxw1Eof ||| (BitVec.ofNat 32 n &&& gmacRxw1Len) else 0)

/-- The GMAC starts to receive a frame of 1 to 1518 bytes (the length `eth0_iface_init`
configures). -/
def rxDmaReceive (bytes : List (BitVec 8)) (s : RxSys) : Option RxSys :=
  if s.dma.frame.isNone && 0 < bytes.length && bytes.length ≤ 1518 then
    some { s with dma := { s.dma with frame := some (bytes, 0) } }
  else none

/-- The state after one DMA write-back of the piece of `bytes` from `off` on: into the buffer of
the descriptor at the DMA's pointer, then the status word and `OWNERSHIP`. The DMA moves on,
back to slot 0 after a `WRAP` descriptor. -/
def RxSys.dmaWritten (dataSize : Nat) (s : RxSys) (bytes : List (BitVec 8)) (off : Nat) : RxSys :=
  let d := s.q.rxDescList.buf s.dma.ptr
  let sz := rxBufSize dataSize
  let rest := bytes.drop off
  let last := decide (rest.length ≤ sz)
  let addr := (d.w0 &&& gmacRxw0Addr).toNat
  let chunk := rest.take sz
  { s with
    mem := setAt s.mem addr (chunk ++ (s.mem addr).drop chunk.length),
    q := s.q.setDesc s.dma.ptr ⟨d.w0 ||| gmacRxw0Ownership, rxStatus (off = 0) last bytes.length⟩,
    dma := { ptr := if flag d.w0 gmacRxw0Wrap then 0 else s.dma.ptr + 1,
             frame := if last then none else some (bytes, off + sz) },
    completed := if last then s.completed ++ [bytes] else s.completed }

/-- One DMA write-back, when the DMA is receiving a frame and the descriptor at its pointer does
not have `OWNERSHIP`. -/
def rxDmaWrite (dataSize : Nat) (s : RxSys) : Option RxSys :=
  match s.dma.frame with
  | none => none
  | some (bytes, off) =>
    if flag (s.q.rxDescList.buf s.dma.ptr).w0 gmacRxw0Ownership then none
    else some (s.dmaWritten dataSize bytes off)

theorem rxDmaWrite_some {dataSize : Nat} {s s' : RxSys} (h : rxDmaWrite dataSize s = some s') :
    ∃ bytes off, s.dma.frame = some (bytes, off) ∧
      flag (s.q.rxDescList.buf s.dma.ptr).w0 gmacRxw0Ownership = false ∧
      s' = s.dmaWritten dataSize bytes off := by
  unfold rxDmaWrite at h
  split at h
  · cases h
  · rename_i bytes off hf
    split at h
    · cases h
    · rename_i hown
      cases h
      exact ⟨bytes, off, hf, by simpa using hown, rfl⟩

/-- The GMAC drops the frame it is receiving, as `frame_get`'s comment allows: the descriptors it
has written keep their status and `OWNERSHIP`, and the next frame starts at its pointer. -/
def rxDmaDrop (s : RxSys) : Option RxSys :=
  if s.dma.frame.isSome then some { s with dma := { s.dma with frame := none } } else none

/-! ## The driver -/

/-- The bytes a fragment chain holds: each fragment's first `len` bytes. -/
def chainBytes (p : RxPool) (mem : Nat → List (BitVec 8)) (fr : List Frag) : List (BitVec 8) :=
  fr.flatMap fun f => (mem (p.dataOf f.1).toNat).take f.2.toNat

/-- One step of the RX side; `dataSize` is `CONFIG_NET_BUF_DATA_SIZE`. -/
def rxStep (dataSize : Nat) (s : RxSys) : RxStep → Option RxSys
  | .receive bytes => rxDmaReceive bytes s
  | .dma => rxDmaWrite dataSize s
  | .scan okFrame =>
    match s.fg with
    | some _ => none
    | none => (frameGetStart s.q okFrame).map fun fg => { s with fg := some fg }
  | .turn okFrag =>
    match s.fg with
    | none => none
    | some fg =>
      if fg.more s.q then
        let r := frameGetTurn dataSize okFrag s.q s.pool fg
        some { s with q := r.1, pool := r.2.1, fg := some r.2.2.1,
                      released := s.released ++ r.2.2.2.toList }
      else none
  | .finish =>
    match s.fg with
    | none => none
    | some fg =>
      if fg.more s.q then none
      else some { s with q := frameGetEnd s.q fg, fg := none,
                         returned := s.returned ++ fg.rxFrame.toList }
  | .error =>
    match s.fg with
    | some _ => none
    | none => some { s with q := rxErrorHandler s.q, dma := ⟨0, none⟩ }
  | .drop => rxDmaDrop s

/-- A run: the steps in order, each of which can happen. -/
def rxRun (dataSize : Nat) (s : RxSys) (steps : List RxStep) : Option RxSys :=
  steps.foldlM (rxStep dataSize) s

theorem rxRun_append (dataSize : Nat) (s : RxSys) (steps steps' : List RxStep) :
    rxRun dataSize s (steps ++ steps') = (rxRun dataSize s steps).bind (rxRun dataSize · steps') := by
  simp [rxRun, List.foldlM_append]

/-- Every step that can happen, with its guard and the state it leads to. -/
theorem rxStep_cases {dataSize : Nat} {s s' : RxSys} {e : RxStep}
    (h : rxStep dataSize s e = some s') :
    (∃ bytes, e = .receive bytes ∧ rxDmaReceive bytes s = some s') ∨
    (e = .dma ∧ rxDmaWrite dataSize s = some s') ∨
    (∃ okFrame fg, e = .scan okFrame ∧ s.fg = none ∧ frameGetStart s.q okFrame = some fg ∧
      s' = { s with fg := some fg }) ∨
    (∃ okFrag fg, e = .turn okFrag ∧ s.fg = some fg ∧ fg.more s.q = true ∧
      s' = { s with q := (frameGetTurn dataSize okFrag s.q s.pool fg).1,
                    pool := (frameGetTurn dataSize okFrag s.q s.pool fg).2.1,
                    fg := some (frameGetTurn dataSize okFrag s.q s.pool fg).2.2.1,
                    released :=
                      s.released ++ (frameGetTurn dataSize okFrag s.q s.pool fg).2.2.2.toList }) ∨
    (∃ fg, e = .finish ∧ s.fg = some fg ∧ fg.more s.q = false ∧
      s' = { s with q := frameGetEnd s.q fg, fg := none,
                    returned := s.returned ++ fg.rxFrame.toList }) ∨
    (e = .error ∧ s.fg = none ∧ s' = { s with q := rxErrorHandler s.q, dma := ⟨0, none⟩ }) ∨
    (e = .drop ∧ s.dma.frame.isSome ∧ s' = { s with dma := { s.dma with frame := none } }) := by
  cases e with
  | receive bytes => exact .inl ⟨bytes, rfl, h⟩
  | dma => exact .inr (.inl ⟨rfl, h⟩)
  | scan okFrame =>
    simp only [rxStep] at h
    split at h
    · cases h
    · obtain ⟨fg, hfg, rfl⟩ := Option.map_eq_some'.mp h
      exact .inr (.inr (.inl ⟨okFrame, fg, rfl, ‹_›, hfg, rfl⟩))
  | turn okFrag =>
    simp only [rxStep] at h
    split at h
    · cases h
    · rename_i fg hfg
      split at h
      · cases h
        exact .inr (.inr (.inr (.inl ⟨okFrag, fg, rfl, hfg, ‹_›, rfl⟩)))
      · cases h
  | finish =>
    simp only [rxStep] at h
    split at h
    · cases h
    · rename_i fg hfg
      split at h
      · cases h
      · rename_i hmore
        cases h
        exact .inr (.inr (.inr (.inr (.inl ⟨fg, rfl, hfg, by simpa using hmore, rfl⟩))))
  | error =>
    simp only [rxStep] at h
    split at h
    · cases h
    · cases h
      exact .inr (.inr (.inr (.inr (.inr (.inl ⟨rfl, ‹_›, rfl⟩)))))
  | drop =>
    simp only [rxStep, rxDmaDrop] at h
    split at h
    · cases h
      exact .inr (.inr (.inr (.inr (.inr (.inr ⟨rfl, ‹_›, rfl⟩)))))
    · cases h

/-- Queue 0's RX side right after a `queue_init` whose `rx_descriptors_init` succeeded, from the
RX fields `q` and the pool `p` it found and the memory `mem`; `ok` says which reservations
succeed. -/
def rxInit (ok : Nat → Bool) (q : RxQueue) (p : RxPool) (mem : Nat → List (BitVec 8)) :
    Option RxSys :=
  match rxDescriptorsInit ok q p with
  | (0, q, p, _) =>
    some { q := { q with errRxFramesDropped := 0, errRxFlushedCount := 0 }, pool := p, fg := none,
           dma := ⟨0, none⟩, mem, completed := [], returned := [], released := [] }
  | _ => none

theorem rxInit_eq {ok : Nat → Bool} {q : RxQueue} {p : RxPool} {mem : Nat → List (BitVec 8)}
    {s : RxSys} (h : rxInit ok q p mem = some s) :
    (rxDescriptorsInit ok q p).1 = 0 ∧
    s = { q := { (rxDescriptorsInit ok q p).2.1 with errRxFramesDropped := 0, errRxFlushedCount := 0 },
          pool := (rxDescriptorsInit ok q p).2.2.1, fg := none, dma := ⟨0, none⟩, mem,
          completed := [], returned := [], released := [] } := by
  unfold rxInit at h
  split at h
  · rename_i q' p' rel hr
    rw [hr]
    exact ⟨rfl, (Option.some.inj h).symm⟩
  · cases h

/-- The states a run reaches from `s₀`. -/
inductive RxReachable (dataSize : Nat) (s₀ : RxSys) : RxSys → Prop where
  | init : RxReachable dataSize s₀ s₀
  | step {s s' : RxSys} (e : RxStep) : RxReachable dataSize s₀ s → rxStep dataSize s e = some s' →
      RxReachable dataSize s₀ s'

/-- Every state a run ends in is reachable. -/
theorem RxReachable.of_rxRun {dataSize : Nat} {s₀ s s' : RxSys} (steps : List RxStep)
    (hs : RxReachable dataSize s₀ s) (h : rxRun dataSize s steps = some s') :
    RxReachable dataSize s₀ s' := by
  induction steps generalizing s with
  | nil => cases h; exact hs
  | cons e steps ih =>
    simp only [rxRun, List.foldlM_cons, Option.bind_eq_bind, Option.bind_eq_some] at h
    obtain ⟨s₁, h₁, h⟩ := h
    exact ih (hs.step e h₁) h

/-- The static RX storage of queue 0 before `queue_init`: `len` descriptors and slots, all zero. -/
def staticRxQueue (len : Nat) : RxQueue :=
  ⟨⟨fun _ => ⟨0, 0⟩, len, 0, 0⟩, ⟨fun _ => .null, len, 0, 0⟩, 0, 0⟩

end SamGmac.Rx
