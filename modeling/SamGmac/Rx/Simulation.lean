import SamGmac.Rx.FrameGet
import SamGmac.Rx.Buffers

/-! # frame_get and eth_rx as runs of the system model

A whole `frame_get` or `eth_rx` call with the DMA idle, as `Rx.FrameGet` has it, is a run of the
steps of `Rx.System`: for each `frame_get`, the scan, one turn per descriptor and the end. So the
invariant of the ring, proved of every step, holds after every whole call.
-/

namespace SamGmac.Rx

open SamGmac

/-- The system model's state while a `frame_get` call started from `s` is in its second loop at
`S`: the queue, pool and locals of the loop, and the frames it has released so far. -/
def RxSys.inCall (s : RxSys) (S : FrameGetLoop) : RxSys :=
  { s with q := S.q, pool := S.p, fg := some S.fg, released := s.released ++ S.released }

/-! ## One frame_get -/

section
variable {dataSize : Nat} {s : RxSys}

theorem rxStep_scan_inCall {okFrame : Bool} (hfg : s.fg = none)
    (h : frameGetStart s.q okFrame = some (frameGetInit s.q s.pool okFrame).fg) :
    rxStep dataSize s (.scan okFrame) = some (s.inCall (frameGetInit s.q s.pool okFrame)) := by
  simp [rxStep, hfg, h, RxSys.inCall, frameGetInit]

theorem rxStep_turn_inCall (okFrag : Nat → Bool) {S : FrameGetLoop} (h : S.fg.more S.q = true) :
    rxStep dataSize (s.inCall S) (.turn (okFrag S.turns)) =
      some (s.inCall (S.turn dataSize okFrag)) := by
  simp [rxStep, RxSys.inCall, FrameGetLoop.turn, h]

theorem rxStep_finish_inCall {S : FrameGetLoop} (h : S.fg.more S.q = false) :
    rxStep dataSize (s.inCall S) .finish =
      some { s with q := frameGetEnd S.q S.fg, pool := S.p, fg := none,
                    returned := s.returned ++ S.fg.rxFrame.toList,
                    released := s.released ++ S.released } := by
  simp [rxStep, RxSys.inCall, h]

/-- The second loop of `frame_get`, run to its end, is a run of the system model's `.turn`
steps, one per descriptor, with the outcomes of `net_pkt_get_frag` in order. -/
theorem frameGetAssemble_rxRun (okFrag : Nat → Bool) (s : RxSys) :
    ∀ fuel (S S' : FrameGetLoop), frameGetAssemble dataSize okFrag fuel S = some (.ok S') →
      S'.fg.more S'.q = false ∧ ∃ m, rxRun dataSize (s.inCall S)
        ((List.range' S.turns m).map fun i => .turn (okFrag i)) = some (s.inCall S')
  | 0, S, S', h => by
    simp only [frameGetAssemble, whileFuel] at h
    split at h
    · cases h
    · cases h; exact ⟨Bool.eq_false_iff.mpr ‹_›, 0, rfl⟩
  | fuel + 1, S, S', h => by
    simp only [frameGetAssemble, whileFuel] at h
    split at h
    · rename_i hmore
      split at h
      · rename_i hb
        obtain rfl := frameGetBody_ok hb
        obtain ⟨hend, m, hrun⟩ := frameGetAssemble_rxRun okFrag s fuel _ _ h
        refine ⟨hend, m + 1, ?_⟩
        simp only [List.range', List.map_cons, rxRun, List.foldlM_cons,
          rxStep_turn_inCall okFrag hmore, Option.bind_eq_bind, Option.some_bind]
        exact hrun
      · cases h
    · cases h; exact ⟨Bool.eq_false_iff.mpr ‹_›, 0, rfl⟩

/-- A `frame_get` call that returns, run with the DMA idle from a state of the system model with
no call in progress and its tail in a non-empty ring, is a run of the system model's steps. When
its first loop finds no complete frame the scan step refuses and the call changes nothing;
otherwise the call is the scan, one turn per descriptor with the outcomes of `net_pkt_get_frag`
in order, and the end, and they leave the queue and pool `frame_get` leaves and record the frame
it returns and the frames it releases. -/
theorem frameGet_rxRun {okFrame : Bool} {okFrag : Nat → Bool} {fuel : Nat} {q' : RxQueue}
    {p' : RxPool} {fr : Option (List Frag)} {rel : List (List Frag)}
    (hR : 0 < s.q.rxDescList.len) (ht : s.q.rxDescList.tail < s.q.rxDescList.len)
    (hfg : s.fg = none)
    (h : frameGet dataSize okFrame okFrag fuel s.q s.pool = some (.ok (q', p', fr, rel))) :
    (rxStep dataSize s (.scan okFrame) = none ∧ q' = s.q ∧ p' = s.pool ∧ fr = none ∧ rel = []) ∨
    ∃ m, rxRun dataSize s
        ((.scan okFrame :: (List.range m).map fun i => .turn (okFrag i)) ++ [.finish]) =
      some { s with q := q', pool := p', returned := s.returned ++ fr.toList,
                    released := s.released ++ rel } := by
  unfold frameGet at h
  split at h
  · cases h
  · cases h
  · rename_i t c hscan
    cases c
    · -- the first loop finds no complete frame
      simp only [Bool.not_false, if_true, Option.some.injEq, Except.ok.injEq, Prod.mk.injEq] at h
      obtain ⟨rfl, rfl, rfl, rfl⟩ := h
      exact .inl ⟨by simp [rxStep, hfg, frameGetStart, rxFrameScan_eq_false hscan],
        rfl, rfl, rfl, rfl⟩
    · -- it finds one, which the second loop takes
      simp only [Bool.not_true, Bool.false_eq_true, if_false] at h
      split_ifs at h
      · cases h
      split at h
      · cases h
      · cases h
      rename_i S' hS
      split_ifs at h
      · simp only [Option.some.injEq, Except.ok.injEq, Prod.mk.injEq] at h
        obtain ⟨rfl, rfl, rfl, rfl⟩ := h
        obtain ⟨hend, m, hrun⟩ := frameGetAssemble_rxRun okFrag s fuel _ _ hS
        refine .inr ⟨m, ?_⟩
        have hstart := (frameGetStart_iff s.q s.pool okFrame _).mpr
          ⟨rfl, t, frameGetScan_len_of_eof hR ht hscan⟩
        have hturns : List.foldlM (rxStep dataSize) (s.inCall (frameGetInit s.q s.pool okFrame))
            ((List.range' 0 m).map fun i => .turn (okFrag i)) = some (s.inCall S') := hrun
        simp only [rxRun, List.foldlM_append, List.foldlM_cons, rxStep_scan_inCall hfg hstart,
          Option.bind_eq_bind, Option.some_bind, List.range_eq_range', hturns,
          rxStep_finish_inCall hend, List.foldlM_nil, hfg]
        rfl
      · cases h

/-! ## Whole calls -/

/-- A whole `frame_get` call, run with the DMA idle, keeps the invariant of the ring. -/
theorem RxInv.of_frameGet {R : Nat} {D : Nat → BitVec 32} {okFrame : Bool} {okFrag : Nat → Bool}
    {fuel : Nat} {q' : RxQueue} {p' : RxPool} {fr : Option (List Frag)} {rel : List (List Frag)}
    (hi : RxInv R D s) (hfg : s.fg = none)
    (h : frameGet dataSize okFrame okFrag fuel s.q s.pool = some (.ok (q', p', fr, rel))) :
    RxInv R D { s with q := q', pool := p', returned := s.returned ++ fr.toList,
                       released := s.released ++ rel } := by
  rcases frameGet_rxRun (hi.len ▸ hi.pos) (hi.len ▸ hi.tail) hfg h with
    ⟨-, rfl, rfl, rfl, rfl⟩ | ⟨m, hrun⟩
  · simpa using hi
  · exact hi.reachable (RxReachable.of_rxRun _ .init hrun)

/-- A whole `eth_rx` call, run with the DMA idle from a state with no call in progress, is a run
of the system model. The run ends with no call in progress, with the queue and pool `eth_rx`
leaves, and the frames it returns and releases are, up to order, the frames `eth_rx` hands to
`net_recv_data` or releases. -/
theorem ethRx_rxRun {R : Nat} {D : Nat → BitVec 32} {env : Nat → RxEnv} :
    ∀ fuel n (s : RxSys) (q' : RxQueue) (p' : RxPool) (acc rel : List (List Frag)),
      RxInv R D s → s.fg = none →
      ethRx dataSize env fuel n s.q s.pool = some (.ok (q', p', acc, rel)) →
      ∃ steps s', rxRun dataSize s steps = some s' ∧ s'.fg = none ∧ s'.q = q' ∧ s'.pool = p' ∧
        ∃ frs rels, s'.returned = s.returned ++ frs ∧ s'.released = s.released ++ rels ∧
          (acc ++ rel).Perm (frs ++ rels)
  | 0, _, _, _, _, _, _, _, _, h => by cases h
  | fuel + 1, n, s, q', p', acc, rel, hi, hfg, h => by
    unfold ethRx at h
    split at h
    · cases h
    · cases h
    · rename_i q₁ p₁ rel₁ hget
      simp only [Option.some.injEq, Except.ok.injEq, Prod.mk.injEq] at h
      obtain ⟨rfl, rfl, rfl, rfl⟩ := h
      rcases frameGet_rxRun (hi.len ▸ hi.pos) (hi.len ▸ hi.tail) hfg hget with
        ⟨-, rfl, rfl, -, rfl⟩ | ⟨m, hrun⟩
      · exact ⟨[], s, rfl, hfg, rfl, rfl, [], [], by simp, by simp, by simp⟩
      · exact ⟨_, _, hrun, hfg, rfl, rfl, [], rel₁, by simp, rfl, by simp⟩
    · rename_i q₁ p₁ fr rel₁ hget
      obtain ⟨r, hr, hmap⟩ := Option.map_eq_some'.mp h
      rcases r with e | ⟨q₂, p₂, acc₂, rel₂⟩
      · cases hmap
      simp only [Except.map, Except.ok.injEq, Prod.mk.injEq] at hmap
      obtain ⟨rfl, rfl, rfl, rfl⟩ := hmap
      rcases frameGet_rxRun (hi.len ▸ hi.pos) (hi.len ▸ hi.tail) hfg hget with
        ⟨-, -, -, h', -⟩ | ⟨m, hrun⟩
      · cases h'
      obtain ⟨steps, s', hrun', hfg', rfl, rfl, frs, rels, hret, hrel, hperm⟩ :=
        ethRx_rxRun fuel (n + 1) _ _ _ _ _ (hi.of_frameGet hfg hget) hfg hr
      refine ⟨_ ++ steps, s', by rw [rxRun_append, hrun, Option.some_bind]; exact hrun', hfg', rfl,
        rfl, fr :: frs, rel₁ ++ rels, by simp [hret], by simp [hrel], ?_⟩
      rw [List.perm_iff_count] at hperm ⊢
      intro a
      have := hperm a
      cases (env n).accepted <;> simp [List.count_append, List.count_cons] at this ⊢ <;> omega

/-- `eth_rx` keeps the invariant of the ring: the queue and pool it leaves are those of a state
of the system model where the invariant holds. -/
theorem RxInv.of_ethRx {R : Nat} {D : Nat → BitVec 32} {env : Nat → RxEnv} {fuel n : Nat}
    {q' : RxQueue} {p' : RxPool} {acc rel : List (List Frag)} (hi : RxInv R D s)
    (hfg : s.fg = none) (h : ethRx dataSize env fuel n s.q s.pool = some (.ok (q', p', acc, rel))) :
    ∃ s', RxInv R D s' ∧ s'.q = q' ∧ s'.pool = p' := by
  obtain ⟨steps, s', hrun, -, hq, hp, -⟩ := ethRx_rxRun fuel n s q' p' acc rel hi hfg h
  exact ⟨s', hi.reachable (RxReachable.of_rxRun _ .init hrun), hq, hp⟩

end

end SamGmac.Rx
