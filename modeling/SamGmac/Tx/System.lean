import SamGmac.Tx.Queue

/-! # Queue 0's TX side as a system

`eth_tx` calls cut into their atomic sections, the TX half of `queue0_isr`, and the GMAC's
transmit DMA, interleaved in any order. `irq_lock` keeps the ISR and the other calls out of a
locked section but not the DMA. A step that cannot happen is `none`.
-/

namespace SamGmac.Tx

open SamGmac

/-- `EIO`. -/
def eio : Int := 5

/-- `struct net_buf` as `eth_tx` reads it. -/
structure NetBuf where
  data : BitVec 32
  len : BitVec 16
  deriving DecidableEq, Repr

/-- `net_buf_push`: the data pointer moves back by `n` bytes, the length grows by `n`. -/
def NetBuf.push (b : NetBuf) (n : Nat) : NetBuf := ⟨b.data - BitVec.ofNat 32 n, b.len + BitVec.ofNat 16 n⟩

/-- Where an `eth_tx` call is. -/
inductive TxPc where
  /-- before `k_sem_take` for fragment `cur` (line 912) -/
  | take
  /-- holding a unit, before the locked section for fragment `cur` (line 918) -/
  | post
  /-- inside that section, `w0` written, before the `w1` write (line 936) -/
  | setW1
  /-- every fragment posted, before the last locked section (line 955) -/
  | final
  /-- before the `TSTART` write (line 975) -/
  | tstart
  | ret (r : Int)
  deriving DecidableEq, Repr

/-- One `eth_tx` call on queue 0. `posted` and `resetsAtEntry` are ghost state: the
descriptors this call wrote, and how many `tx_error_handler` runs came before it. -/
structure TxCall where
  pkt : Nat
  frags : List NetBuf
  cur : Nat
  fragOrig : BitVec 32
  atEntry : BitVec 32
  pc : TxPc
  posted : List (Nat × GmacDesc)
  resetsAtEntry : Nat

/-- The fragment `frag` points at. -/
def TxCall.frag (c : TxCall) : NetBuf := c.frags.getD c.cur ⟨0, 0⟩

/-- `!frag->frags`: the fragment is the last of the chain. -/
def TxCall.isLast (c : TxCall) : Bool := c.cur + 1 = c.frags.length

/-- The status word `eth_tx` writes for its current fragment at `head` (line 936). -/
def txW1 (c : TxCall) (head len : Nat) : BitVec 32 :=
  (c.frag.len.setWidth 32 &&& gmacTxw1Len) |||
    (if c.isLast then gmacTxw1Lastbuffer else 0) |||
    (if head = len - 1 then gmacTxw1Wrap else 0)

/-- The transmit DMA: the descriptor it reads next, the first descriptor of the frame it is
sending, and whether it runs. -/
structure TxDma where
  ptr : Nat
  first : Nat
  running : Bool
  deriving DecidableEq, Repr

/-- What the rest of the system sees. -/
inductive TxEffect where
  /-- `net_pkt_unref` of a packet, by `tx_completed` or by `tx_error_handler` -/
  | unref (pkt : Nat)
  /-- the DMA sends the buffer of a descriptor -/
  | send (slot : Nat) (d : GmacDesc)
  deriving DecidableEq, Repr

/-- Queue 0's TX side: the queue, every `eth_tx` call so far in start order, the call inside
an `irq_lock` section, the DMA, the pending TX bits of `GMAC_ISR`, and what has been seen.
`resets` (ghost) counts `tx_error_handler` runs. -/
structure TxSys where
  q : TxQueue
  calls : List TxCall
  lock : Option Nat
  dma : TxDma
  tcomp : Bool
  txErr : Bool
  log : List TxEffect
  resets : Nat

/-- One atomic step. -/
inductive TxStep where
  /-- a new `eth_tx` call, with `net_pkt_ll_reserve(pkt)` -/
  | call (pkt : Nat) (frags : List NetBuf) (llReserve : Nat)
  /-- call `t` runs its next atomic section -/
  | run (t : Nat)
  /-- `queue0_isr` -/
  | isr
  /-- the DMA reads one descriptor -/
  | dma
  /-- the GMAC raises a bit of `GMAC_INT_TX_ERR_BITS` -/
  | txError
  deriving DecidableEq, Repr

/-- The DMA after `GMAC_NCR_TSTART`: a stopped DMA starts at its pointer. -/
def TxDma.start (d : TxDma) : TxDma := if d.running then d else { d with first := d.ptr, running := true }

/-- Write descriptor `i` of the ring. -/
def TxQueue.setDesc (q : TxQueue) (i : Nat) (d : GmacDesc) : TxQueue :=
  { q with txDescList := { q.txDescList with buf := setAt q.txDescList.buf i d } }

@[simp] theorem TxQueue.setDesc_len (q : TxQueue) (i : Nat) (d : GmacDesc) :
    (q.setDesc i d).txDescList.len = q.txDescList.len := rfl
theorem TxQueue.setDesc_buf (q : TxQueue) (i : Nat) (d : GmacDesc) (j : Nat) :
    (q.setDesc i d).txDescList.buf j = if j = i then d else q.txDescList.buf j :=
  setAt_apply _ _ _ _

/-- The start of `eth_tx`, up to the loop: it reads the error counter and pushes the link
layer header onto the first fragment. -/
def ethTxEntry (q : TxQueue) (resets pkt : Nat) (frags : List NetBuf) (llReserve : Nat) :
    TxCall :=
  let f0 := frags.headD ⟨0, 0⟩
  { pkt, cur := 0, fragOrig := f0.data, atEntry := q.errTxFlushedCount, pc := .take,
    frags := frags.set 0 (f0.push llReserve), posted := [], resetsAtEntry := resets }

/-- The next atomic section of an `eth_tx` call: the new call and queue, and the lock. -/
def ethTxSection (q : TxQueue) (c : TxCall) : Option (TxCall × TxQueue × Bool) :=
  let l := q.txDescList
  match c.pc with
  | .take =>
    if 0 < q.txDescSem then some ({ c with pc := .post }, { q with txDescSem := q.txDescSem - 1 }, false)
    else none
  | .post =>
    if q.errTxFlushedCount ≠ c.atEntry then some ({ c with pc := .ret (-eio) }, q, false)
    else some ({ c with pc := .setW1 }, q.setDesc l.head { l.buf l.head with w0 := c.frag.data }, true)
  | .setW1 =>
    let d := { l.buf l.head with w1 := txW1 c l.head l.len }
    let q := q.setDesc l.head d
    some ({ c with cur := c.cur + 1, pc := if c.isLast then .final else .take,
                   posted := c.posted ++ [(l.head, d)] },
          { q with txDescList := { q.txDescList with head := moduloInc l.head l.len } }, false)
  | .final =>
    let c := { c with frags := c.frags.modifyHead fun f => { f with data := c.fragOrig } }
    if q.errTxFlushedCount ≠ c.atEntry then some ({ c with pc := .ret (-eio) }, q, false)
    else
      let q := q.setDesc l.head ((l.buf l.head).appendW1 gmacTxw1Used)
      some ({ c with pc := .tstart }, { q with txFrames := ringBufPut q.txFrames c.pkt }, false)
  | .tstart => some ({ c with pc := .ret 0 }, q, false)
  | .ret _ => none

/-- One DMA step: stop at a used descriptor, otherwise send it; after a `LASTBUFFER` one, mark
the frame's first descriptor used and raise `TCOMP`. -/
def txDmaStep (s : TxSys) : Option TxSys :=
  if !s.dma.running then none
  else
    let d := s.q.txDescList.buf s.dma.ptr
    if flag d.w1 gmacTxw1Used then some { s with dma := { s.dma with running := false } }
    else
      let next := if flag d.w1 gmacTxw1Wrap then 0 else s.dma.ptr + 1
      let s := { s with log := s.log ++ [TxEffect.send s.dma.ptr d] }
      if flag d.w1 gmacTxw1Lastbuffer then
        let first := s.q.txDescList.buf s.dma.first
        some { s with q := s.q.setDesc s.dma.first (first.appendW1 gmacTxw1Used), tcomp := true,
                      dma := { s.dma with ptr := next, first := next } }
      else some { s with dma := { s.dma with ptr := next } }

/-- The TX half of `queue0_isr`: the status register is cleared on read; a TX error wins over
`TCOMP`. `tx_error_handler` stops the transmitter, which puts the DMA back at the ring start. -/
def txIsr (s : TxSys) : Option TxSys :=
  if s.lock.isSome || !(s.tcomp || s.txErr) then none
  else
    let err := s.txErr
    let s := { s with tcomp := false, txErr := false }
    if err then
      let r := txErrorHandler s.q
      some { s with q := r.1, log := s.log ++ r.2.map .unref, dma := ⟨0, 0, false⟩,
                    resets := s.resets + 1 }
    else
      let r := txCompleted s.q
      some { s with q := r.1, log := s.log ++ r.2.toList.map .unref }

/-- One step of the TX side. -/
def txStep (s : TxSys) : TxStep → Option TxSys
  | .call pkt frags llReserve =>
    if s.lock.isSome || frags.isEmpty then none
    else some { s with calls := s.calls ++ [ethTxEntry s.q s.resets pkt frags llReserve] }
  | .run t =>
    if s.lock.any (· ≠ t) then none
    else
      match s.calls[t]? with
      | none => none
      | some c =>
        match ethTxSection s.q c with
        | none => none
        | some (c', q, locked) =>
          some { s with q, calls := s.calls.set t c', lock := if locked then some t else none,
                        dma := if c.pc = .tstart then s.dma.start else s.dma }
  | .isr => txIsr s
  | .dma => txDmaStep s
  | .txError => some { s with txErr := true }

/-- A run: the steps in order, each of which can happen. -/
def txRun (s : TxSys) (steps : List TxStep) : Option TxSys := steps.foldlM txStep s

/-! ## What one step does -/

/-- Every step that can happen, with its guard and the state it leads to. -/
theorem txStep_cases {s s' : TxSys} {e : TxStep} (h : txStep s e = some s') :
    (∃ pkt frags llReserve, e = .call pkt frags llReserve ∧ s.lock = none ∧ frags ≠ [] ∧
      s' = { s with calls := s.calls ++ [ethTxEntry s.q s.resets pkt frags llReserve] }) ∨
    (∃ t c c' q' locked, e = .run t ∧ s.lock.any (· ≠ t) = false ∧ s.calls[t]? = some c ∧
      ethTxSection s.q c = some (c', q', locked) ∧
      s' = { s with q := q', calls := s.calls.set t c', lock := if locked then some t else none,
                    dma := if c.pc = .tstart then s.dma.start else s.dma }) ∨
    (e = .isr ∧ s.lock = none ∧ s.txErr = true ∧
      s' = { s with q := (txErrorHandler s.q).1, tcomp := false, txErr := false,
                    log := s.log ++ (txErrorHandler s.q).2.map .unref, dma := ⟨0, 0, false⟩,
                    resets := s.resets + 1 }) ∨
    (e = .isr ∧ s.lock = none ∧ s.tcomp = true ∧ s.txErr = false ∧
      s' = { s with q := (txCompleted s.q).1, tcomp := false, txErr := false,
                    log := s.log ++ (txCompleted s.q).2.toList.map .unref }) ∨
    (e = .dma ∧ s.dma.running = true ∧
      flag (s.q.txDescList.buf s.dma.ptr).w1 gmacTxw1Used = true ∧
      s' = { s with dma := { s.dma with running := false } }) ∨
    (e = .dma ∧ s.dma.running = true ∧
      flag (s.q.txDescList.buf s.dma.ptr).w1 gmacTxw1Used = false ∧
      flag (s.q.txDescList.buf s.dma.ptr).w1 gmacTxw1Lastbuffer = false ∧
      s' = { s with log := s.log ++ [.send s.dma.ptr (s.q.txDescList.buf s.dma.ptr)],
                    dma := { s.dma with
                      ptr := if flag (s.q.txDescList.buf s.dma.ptr).w1 gmacTxw1Wrap then 0
                             else s.dma.ptr + 1 } }) ∨
    (e = .dma ∧ s.dma.running = true ∧
      flag (s.q.txDescList.buf s.dma.ptr).w1 gmacTxw1Used = false ∧
      flag (s.q.txDescList.buf s.dma.ptr).w1 gmacTxw1Lastbuffer = true ∧
      s' = { s with q := s.q.setDesc s.dma.first
                      ((s.q.txDescList.buf s.dma.first).appendW1 gmacTxw1Used),
                    tcomp := true,
                    log := s.log ++ [.send s.dma.ptr (s.q.txDescList.buf s.dma.ptr)],
                    dma := { s.dma with
                      ptr := if flag (s.q.txDescList.buf s.dma.ptr).w1 gmacTxw1Wrap then 0
                             else s.dma.ptr + 1,
                      first := if flag (s.q.txDescList.buf s.dma.ptr).w1 gmacTxw1Wrap then 0
                               else s.dma.ptr + 1 } }) ∨
    (e = .txError ∧ s' = { s with txErr := true }) := by
  cases e with
  | call pkt frags llReserve =>
    simp only [txStep] at h
    split at h
    · cases h
    · rename_i hg
      cases h
      simp only [Bool.or_eq_true, Option.isSome_iff_ne_none, List.isEmpty_iff, not_or,
        not_not] at hg
      exact .inl ⟨pkt, frags, llReserve, rfl, hg.1, hg.2, rfl⟩
  | run t =>
    simp only [txStep] at h
    split at h
    · cases h
    · rename_i hg
      split at h
      · cases h
      · rename_i c hc
        split at h
        · cases h
        · rename_i c' q' locked hsec
          cases h
          exact .inr (.inl ⟨t, c, c', q', locked, rfl, by simpa using hg, hc, hsec, rfl⟩)
  | isr =>
    simp only [txStep, txIsr] at h
    split at h
    · cases h
    · rename_i hg
      simp only [Bool.or_eq_true, Option.isSome_iff_ne_none, Bool.not_eq_true', not_or,
        not_not, Bool.or_eq_false_iff] at hg
      split at h
      · cases h
        exact .inr (.inr (.inl ⟨rfl, hg.1, ‹_›, rfl⟩))
      · rename_i herr
        cases h
        simp only [Bool.not_eq_true] at herr
        exact .inr (.inr (.inr (.inl ⟨rfl, hg.1, by simpa [herr] using hg.2, herr, rfl⟩)))
  | dma =>
    simp only [txStep, txDmaStep] at h
    split at h
    · cases h
    · rename_i hrun
      simp only [Bool.not_eq_true', Bool.not_eq_false] at hrun
      split at h
      · cases h
        exact .inr (.inr (.inr (.inr (.inl ⟨rfl, hrun, ‹_›, rfl⟩))))
      · rename_i hused
        simp only [Bool.not_eq_true] at hused
        split at h
        · cases h
          exact .inr (.inr (.inr (.inr (.inr (.inr (.inl ⟨rfl, hrun, hused, ‹_›, rfl⟩))))))
        · rename_i hlast
          simp only [Bool.not_eq_true] at hlast
          cases h
          exact .inr (.inr (.inr (.inr (.inr (.inl ⟨rfl, hrun, hused, hlast, rfl⟩)))))
  | txError =>
    cases h
    exact .inr (.inr (.inr (.inr (.inr (.inr (.inr ⟨rfl, rfl⟩))))))

/-- Queue 0's TX side right after `queue_init`, from the static storage `q`. -/
def txInit (q : TxQueue) : TxSys :=
  { q := { txDescriptorsInit q with txDescSem := q.txDescList.len - 1, errTxFlushedCount := 0 },
    calls := [], lock := none, dma := ⟨0, 0, false⟩, tcomp := false, txErr := false, log := [],
    resets := 0 }

/-- The states a run from `txInit q` reaches. -/
inductive TxReachable (q : TxQueue) : TxSys → Prop where
  | init : TxReachable q (txInit q)
  | step {s s' : TxSys} (e : TxStep) : TxReachable q s → txStep s e = some s' → TxReachable q s'

theorem TxReachable.of_txRun {q : TxQueue} {s s' : TxSys} (steps : List TxStep)
    (hs : TxReachable q s) (h : txRun s steps = some s') : TxReachable q s' := by
  induction steps generalizing s with
  | nil => cases h; exact hs
  | cons e steps ih =>
    simp only [txRun, List.foldlM_cons, Option.bind_eq_bind, Option.bind_eq_some] at h
    obtain ⟨s₁, h₁, h⟩ := h
    exact ih (hs.step e h₁) h

/-- The static storage of queue 0 before `queue_init`: all zero. -/
def staticTxQueue (len framesLen : Nat) : TxQueue :=
  ⟨⟨fun _ => ⟨0, 0⟩, len, 0, 0⟩, ⟨fun _ => 0, framesLen, 0, 0⟩, 0, 0⟩

/-! ## Releases and sends -/

/-- The packets released so far, in order. -/
def TxSys.released (s : TxSys) : List Nat := s.log.filterMap fun | .unref p => some p | _ => none

/-- The descriptors the DMA has sent so far, in order. -/
def TxSys.sent (s : TxSys) : List (Nat × GmacDesc) :=
  s.log.filterMap fun | .send i d => some (i, d) | _ => none

/-- The DMA sends packet 102 before `eth_tx` queues it; the ISR then releases packet 100, already
released, from an empty `tx_frames`, and 102 is never released. -/
theorem eth_tx_race_releases_packet_twice :
    (txRun (txInit (staticTxQueue 4 2))
      [.call 100 [⟨0x20001000, 60⟩] 0, .run 0, .run 0, .run 0, .run 0, .run 0, .dma, .dma, .isr,
       .call 101 [⟨0x20001000, 60⟩] 0, .run 1, .run 1, .run 1, .run 1, .run 1,
       .call 102 [⟨0x20001000, 60⟩] 0, .run 2, .run 2, .run 2,
       .dma, .isr, .dma, .isr, .run 2, .run 2]).map
      (fun s => (s.released, s.calls.map (·.pc), s.q.txFrames.contents)) =
    some ([100, 101, 100], [.ret 0, .ret 0, .ret 0], []) := by
  simp only [txInit, staticTxQueue, txDescriptorsInit, List.range, List.range.loop, List.foldl]
  decide

/-- While packet 103 has posted only its first fragment, the DMA runs on into the next slot and
sends the stale second fragment of packet 101. -/
theorem dma_sends_stale_descriptor :
    (txRun (txInit (staticTxQueue 4 4))
      [.call 100 [⟨0x20001000, 60⟩, ⟨0x20002000, 40⟩] 0,
       .run 0, .run 0, .run 0, .run 0, .run 0, .run 0, .run 0, .run 0, .dma, .dma, .dma, .isr,
       .call 101 [⟨0x20003000, 30⟩, ⟨0x20004000, 20⟩] 0,
       .run 1, .run 1, .run 1, .run 1, .run 1, .run 1, .run 1, .run 1, .dma, .dma, .dma, .isr,
       .call 102 [⟨0x20001000, 60⟩, ⟨0x20002000, 40⟩] 0,
       .run 2, .run 2, .run 2, .run 2, .run 2, .run 2, .run 2, .run 2,
       .call 103 [⟨0x20001000, 60⟩, ⟨0x20002000, 40⟩] 0, .run 3, .run 3, .run 3,
       .dma, .dma, .dma, .dma]).map
      (fun s => (s.released, s.sent.getLast?, s.calls.map (·.pc), (txStep s (.run 3)).isNone)) =
    some ([100, 101], some (3, ⟨0x20004000, 0x40008014⟩), [.ret 0, .ret 0, .ret 0, .take], true) := by
  simp only [txInit, staticTxQueue, txDescriptorsInit, List.range, List.range.loop, List.foldl]
  decide

/-! ## The units of `tx_desc_sem` -/

/-- The units of `tx_desc_sem` accounted for: its count, the units calls hold and have not yet
turned into a posted descriptor, and the descriptors from `tail` to `head`. -/
def TxSys.semAccount (s : TxSys) : Nat :=
  s.q.txDescSem + (s.calls.filter fun c => c.pc == .post || c.pc == .setW1).length +
    (s.q.txDescList.head + s.q.txDescList.len - s.q.txDescList.tail) % s.q.txDescList.len

/-- A call that starts before a TX error recovery leaves with `-EIO` holding a unit of
`tx_desc_sem`. -/
theorem eio_exit_leaks_sem_unit :
    (txRun (txInit (staticTxQueue 4 4))
      [.call 100 [⟨0x20001000, 60⟩] 0, .txError, .isr, .run 0, .run 0]).map
      (fun s => (s.calls.map (·.pc), s.semAccount)) = some ([.ret (-eio)], 2) := by
  simp only [txInit, staticTxQueue, txDescriptorsInit, List.range, List.range.loop, List.foldl]
  decide

/-! ## Completion -/

/-- Two `TCOMP`s coalesce twice: `tx_frames` keeps packets 102 and 103, the semaphore is empty, and
packet 104 blocks with nothing left to run. -/
theorem coalesced_tcomp_deadlocks_eth_tx :
    (txRun (txInit (staticTxQueue 4 4))
      [.call 100 [⟨0x20001000, 60⟩] 0, .run 0, .run 0, .run 0, .run 0, .run 0,
       .call 101 [⟨0x20001000, 60⟩] 0, .run 1, .run 1, .run 1, .run 1, .run 1,
       .dma, .dma, .dma, .isr,
       .call 102 [⟨0x20001000, 60⟩] 0, .run 2, .run 2, .run 2, .run 2, .run 2,
       .call 103 [⟨0x20001000, 60⟩] 0, .run 3, .run 3, .run 3, .run 3, .run 3,
       .dma, .dma, .dma, .isr,
       .call 104 [⟨0x20001000, 60⟩, ⟨0x20002000, 40⟩] 0, .run 4, .run 4, .run 4]).map
      (fun s => ((s.dma.running, s.tcomp, s.txErr), (s.sent.map (·.1), s.released,
        s.q.txFrames.contents), s.q.txDescSem,
        (txStep s (.run 4)).isNone && (txStep s .isr).isNone && (txStep s .dma).isNone)) =
    some ((false, false, false), ([0, 1, 2, 3], [100, 101], [102, 103]), 0, true) := by
  simp only [txInit, staticTxQueue, txDescriptorsInit, List.range, List.range.loop, List.foldl]
  decide

end SamGmac.Tx
