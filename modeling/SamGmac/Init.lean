import SamGmac.Queue

/-! # Interface start-up and the RX buffers

`eth0_iface_init` does the driver's start-up while `init_done` is false: `gmac_init`,
`queue_init`, the PHY start and auto-negotiation, each of which may fail and leave `init_done`
false for the next call. What these calls do with the RX buffers `queue_init` reserves.
-/

namespace SamGmac

open SamGmac.Tx SamGmac.Rx

/-- How each fallible call in one `eth0_iface_init` ends; `reserve i` is the outcome of
`net_pkt_get_reserve_rx_data` for slot `i`. -/
structure InitOutcome where
  gmacInit : Bool
  reserve : Nat → Bool
  phyInit : Bool
  autoNegotiate : Bool

/-- What lasts from one `eth0_iface_init` to the next: `init_done`, queue 0, the RX pool, and
(ghost) every object the driver released, in order. -/
structure Iface where
  initDone : Bool
  q : GmacQueue
  pool : RxPool
  unrefs : List BufPtr

/-- `eth0_iface_init`. The priority queues, the MAC address and the link set-up touch no RX
buffer and are left out. -/
def eth0IfaceInit (o : InitOutcome) (st : Iface) : Iface :=
  if st.initDone || !o.gmacInit then st
  else
    match queueInit o.reserve st.q st.pool with
    | (result, q, pool, released) =>
      let st := { st with q, pool, unrefs := st.unrefs ++ released }
      if result < 0 || !o.phyInit || !o.autoNegotiate then st else { st with initDone := true }

/-- Calls of `eth0_iface_init`, one after another. -/
def eth0IfaceRun (os : List InitOutcome) (st : Iface) : Iface :=
  os.foldl (fun st o => eth0IfaceInit o st) st

/-- Before the first call: nothing set up, queue 0 in its static storage of `len` slots, no
buffer handed out or released. -/
def ifaceStatic (len : Nat) (data : Nat → BitVec 32) : Iface :=
  ⟨false, ⟨staticTxQueue len len, staticRxQueue len⟩, ⟨0, data⟩, []⟩

/-- Every RX buffer the pool handed out is in exactly one slot of `rx_frag_list` or was released
exactly once, and nothing else was released. -/
def Iface.BuffersAccounted (st : Iface) : Prop :=
  (∀ b < st.pool.next,
    ((List.range st.q.rx.rxFragList.len).filter fun i => st.q.rx.rxFragList.buf i = .buf b).length +
      st.unrefs.count (.buf b) = 1) ∧
  ∀ x ∈ st.unrefs, x.Issued st.pool.next

instance (st : Iface) : Decidable st.BuffersAccounted := inferInstanceAs (Decidable (_ ∧ _))

/-! ## What the calls release -/

theorem rxDescriptorsInit_releases_array (ok : Nat → Bool) (q : RxQueue) (p : RxPool) :
    ∃ n, (rxDescriptorsInit ok q p).2.2.2 = List.replicate n .fragArray := by
  unfold rxDescriptorsInit
  dsimp only
  split
  · exact ⟨_, freeRxBufs_eq _⟩
  · exact ⟨0, rfl⟩

theorem eth0IfaceInit_unrefs (o : InitOutcome) (st : Iface) :
    ∃ n, (eth0IfaceInit o st).unrefs = st.unrefs ++ List.replicate n .fragArray := by
  unfold eth0IfaceInit
  split
  · exact ⟨0, by simp⟩
  · split
    · rename_i r q p rel heq
      obtain ⟨n, hn⟩ := rxDescriptorsInit_releases_array o.reserve st.q.rx st.pool
      have hrel : rel = List.replicate n .fragArray := by
        rw [← hn, ← queueInit_released, heq]
      refine ⟨n, ?_⟩
      split <;> simp [hrel]

/-- No run of `eth0_iface_init` calls releases an RX buffer: all they release is the array
`rx_frag_list`, which was never reserved. -/
theorem eth0IfaceRun_releases_only_array (os : List InitOutcome) (st : Iface) :
    ∃ n, (eth0IfaceRun os st).unrefs = st.unrefs ++ List.replicate n .fragArray := by
  induction os generalizing st with
  | nil => exact ⟨0, by simp [eth0IfaceRun]⟩
  | cons o os ih =>
    obtain ⟨m, hm⟩ := eth0IfaceInit_unrefs o st
    obtain ⟨n, hn⟩ := ih (eth0IfaceInit o st)
    refine ⟨m + n, ?_⟩
    rw [eth0IfaceRun, List.foldl_cons, ← eth0IfaceRun, hn, hm, List.replicate_add,
      List.append_assoc]

/-- So after any run from a state that released nothing, a buffer the pool handed out that no
slot holds is lost: it was never released either. -/
theorem eth0IfaceRun_loses_unslotted {os : List InitOutcome} {st : Iface} (hst : st.unrefs = [])
    {b : Nat} (hb : b < (eth0IfaceRun os st).pool.next)
    (hslot : ∀ i < (eth0IfaceRun os st).q.rx.rxFragList.len,
      (eth0IfaceRun os st).q.rx.rxFragList.buf i ≠ .buf b) :
    ¬(eth0IfaceRun os st).BuffersAccounted := fun ⟨h, _⟩ => by
  obtain ⟨n, hn⟩ := eth0IfaceRun_releases_only_array os st
  have hnone : (List.range (eth0IfaceRun os st).q.rx.rxFragList.len).filter
      (fun i => (eth0IfaceRun os st).q.rx.rxFragList.buf i = .buf b) = [] :=
    List.filter_eq_nil_iff.mpr fun i hi => by simpa using hslot i (List.mem_range.mp hi)
  have := h b hb
  rw [hnone, hn, hst] at this
  simp [List.count_replicate] at this

/-- The first call gets through `queue_init`, which puts buffers 0 to 3 in the ring, and fails
at the PHY. The second call's `rx_descriptors_init` puts buffer 4 in slot 0 and fails at
slot 1: `free_rx_bufs` releases the array four times and no buffer. Buffer 0 is in no slot and
was never released, and the array was released though never reserved. -/
theorem eth0_iface_init_retry_loses_buffer :
    (fun st : Iface => (st.initDone, (List.range 4).map st.q.rx.rxFragList.buf, st.pool.next,
        st.unrefs, decide st.BuffersAccounted))
      (eth0IfaceRun [⟨true, fun _ => true, false, true⟩, ⟨true, fun i => i < 1, true, true⟩]
        (ifaceStatic 4 fun b => BitVec.ofNat 32 b <<< 2)) =
    (false, [.buf 4, .buf 1, .buf 2, .buf 3], 5, List.replicate 4 .fragArray, false) := by
  set st := eth0IfaceRun [⟨true, fun _ => true, false, true⟩, ⟨true, fun i => i < 1, true, true⟩]
    (ifaceStatic 4 fun b => BitVec.ofNat 32 b <<< 2) with hst
  have hrun : (st.initDone, (List.range 4).map st.q.rx.rxFragList.buf, st.pool.next, st.unrefs,
      decide (∀ i < st.q.rx.rxFragList.len, st.q.rx.rxFragList.buf i ≠ .buf 0)) =
      (false, [.buf 4, .buf 1, .buf 2, .buf 3], 5, List.replicate 4 .fragArray, true) := by
    simp only [hst, eth0IfaceRun, ifaceStatic, staticRxQueue, List.foldl, eth0IfaceInit, queueInit,
      rxDescriptorsInit, List.range, List.range.loop, List.foldlM]
    decide
  simp only [Prod.mk.injEq, decide_eq_true_eq] at hrun
  obtain ⟨h₁, h₂, h₃, h₄, hslot⟩ := hrun
  have hlost : ¬st.BuffersAccounted := eth0IfaceRun_loses_unslotted rfl (by rw [h₃]; decide) hslot
  simp only [h₁, h₂, h₃, h₄, decide_eq_false hlost]

end SamGmac
