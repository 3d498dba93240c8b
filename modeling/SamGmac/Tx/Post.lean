import Mathlib.Data.List.GetD
import SamGmac.Tx.Ring

/-! # Where an `eth_tx` call posts its fragments

`eth_tx` releases `irq_lock` between fragments, so the fragments of two calls can interleave in
the ring. When calls do not overlap, the descriptors of every accepted packet lie on
consecutive slots from the `head` the call found, one per fragment, and only the last has
`LASTBUFFER`.
-/

namespace SamGmac.Tx

open SamGmac

/-- The call has returned. -/
def TxPc.returned : TxPc → Bool
  | .ret _ => true
  | _ => false

/-- Packet 100 posts its first fragment to slot 0; packet 101, in a second call, then posts its
only fragment to slot 1; packet 100 posts its second fragment to slot 2. Both calls return 0,
and the descriptors of packet 100 are not one run. -/
theorem interleaved_eth_tx_splits_run :
    (txRun (txInit (staticTxQueue 4 4))
      [.call 100 [⟨0x20001000, 60⟩, ⟨0x20002000, 40⟩] 0, .run 0, .run 0, .run 0,
       .call 101 [⟨0x20003000, 30⟩] 0, .run 1, .run 1, .run 1,
       .run 0, .run 0, .run 0, .run 0, .run 0, .run 1, .run 1]).map
      (fun s => (s.calls.map (·.pc), s.calls.map fun c => c.posted.map (·.1))) =
    some ([.ret 0, .ret 0], [[0, 2], [1]]) := by
  simp only [txInit, staticTxQueue, txDescriptorsInit, List.range, List.range.loop, List.foldl]
  decide

/-! ## Calls one at a time -/

/-- A step that starts a call only once every earlier call has returned. -/
def TxStep.serial (s : TxSys) : TxStep → Bool
  | .call .. => s.calls.all (·.pc.returned)
  | _ => true

/-- The states a run from `txInit q` reaches when calls do not overlap. -/
inductive TxSerialReachable (q : TxQueue) : TxSys → Prop where
  | init : TxSerialReachable q (txInit q)
  | step {s s' : TxSys} (e : TxStep) : TxSerialReachable q s → e.serial s = true →
      txStep s e = some s' → TxSerialReachable q s'

/-- A step that is not serial cannot happen. -/
def txSerialStep (s : TxSys) (e : TxStep) : Option TxSys :=
  if e.serial s then txStep s e else none

theorem TxSerialReachable.of_run {q : TxQueue} {s s' : TxSys} (steps : List TxStep)
    (hs : TxSerialReachable q s) (h : steps.foldlM txSerialStep s = some s') :
    TxSerialReachable q s' := by
  induction steps generalizing s with
  | nil => cases h; exact hs
  | cons e steps ih =>
    simp only [List.foldlM_cons, Option.bind_eq_bind, Option.bind_eq_some] at h
    obtain ⟨s₁, h₁, h⟩ := h
    unfold txSerialStep at h₁
    split at h₁
    · exact ih (hs.step e ‹_› h₁) h
    · cases h₁

/-! ## The run a call posts -/

/-- Descriptors `ps`, posted for a packet of `n` fragments, lie on consecutive slots of a ring of
`L` from `h₀`, and `LASTBUFFER` is set on the descriptor of fragment `n - 1` only. -/
def PostedRun (L n h₀ : Nat) (ps : List (Nat × GmacDesc)) : Prop :=
  h₀ < L ∧ ps.map (·.1) = (List.range ps.length).map (slotAfter L h₀) ∧
    ∀ k < ps.length, flag (ps.getD k (0, ⟨0, 0⟩)).2.w1 gmacTxw1Lastbuffer = decide (k + 1 = n)

theorem PostedRun.snoc {L n h₀ : Nat} {ps : List (Nat × GmacDesc)} {d : GmacDesc}
    (hr : PostedRun L n h₀ ps) (hd : flag d.w1 gmacTxw1Lastbuffer = decide (ps.length + 1 = n)) :
    PostedRun L n h₀ (ps ++ [(slotAfter L h₀ ps.length, d)]) := by
  obtain ⟨hh, hslots, hlast⟩ := hr
  refine ⟨hh, by simp [hslots, List.range_succ], fun k hk => ?_⟩
  rw [List.length_append, List.length_singleton] at hk
  rcases Nat.lt_or_ge k ps.length with hk' | hk'
  · rw [List.getD_append _ _ _ _ hk']; exact hlast k hk'
  · obtain rfl : k = ps.length := by omega
    rw [List.getD_append_right _ _ _ _ (le_refl _), Nat.sub_self]
    exact hd

theorem flag_txW1_last (c : TxCall) (head len : Nat) :
    flag (txW1 c head len) gmacTxw1Lastbuffer = c.isLast := by
  unfold txW1
  split <;> split <;> simp [flag_txw1Lastbuffer, *]

/-- What a call has posted, by where it is: while no `tx_error_handler` has run since it
started, its run so far ends at `head`; once it has passed its last check, the run is whole. -/
def TxCall.Posted (L head resets : Nat) (c : TxCall) : Prop :=
  match c.pc with
  | .take | .post | .setW1 => c.resetsAtEntry = resets →
    c.posted.length = c.cur ∧ c.cur < c.frags.length ∧
      ∃ h₀, PostedRun L c.frags.length h₀ c.posted ∧ head = slotAfter L h₀ c.cur
  | .final => c.resetsAtEntry = resets →
    c.posted.length = c.frags.length ∧ ∃ h₀, PostedRun L c.frags.length h₀ c.posted
  | .tstart => c.posted.length = c.frags.length ∧ ∃ h₀, PostedRun L c.frags.length h₀ c.posted
  | .ret r => r = 0 →
    c.posted.length = c.frags.length ∧ ∃ h₀, PostedRun L c.frags.length h₀ c.posted

theorem ofNat_eq_of_lt {a b : Nat} (h : BitVec.ofNat 32 a = BitVec.ofNat 32 b) (ha : a < 2 ^ 32)
    (hb : b < 2 ^ 32) : a = b := by
  have := congrArg BitVec.toNat h
  simp only [BitVec.toNat_ofNat, Nat.mod_eq_of_lt ha, Nat.mod_eq_of_lt hb] at this
  exact this

/-- One locked section of the call: the run grows by the slot at `head` and `head` moves on. -/
theorem TxCall.Posted.of_ethTxSection {L resets : Nat} {q q' : TxQueue} {c c' : TxCall}
    {locked : Bool} (hp : c.Posted L q.txDescList.head resets) (hL : q.txDescList.len = L)
    (hcount : q.errTxFlushedCount = BitVec.ofNat 32 resets)
    (hentry : c.atEntry = BitVec.ofNat 32 c.resetsAtEntry) (hle : c.resetsAtEntry ≤ resets)
    (hres : resets < 2 ^ 32) (h : ethTxSection q c = some (c', q', locked)) :
    c'.Posted L q'.txDescList.head resets := by
  have hcheck : q.errTxFlushedCount = c.atEntry → c.resetsAtEntry = resets := fun he =>
    (ofNat_eq_of_lt (hcount ▸ hentry ▸ he) hres (by omega)).symm
  cases hpc : c.pc with
  | take =>
    simp only [ethTxSection, hpc, Option.ite_none_right_eq_some, Option.some.injEq,
      Prod.mk.injEq] at h
    obtain ⟨-, rfl, rfl, -⟩ := h
    simpa only [TxCall.Posted, hpc] using hp
  | post =>
    simp only [ethTxSection, hpc] at h
    split_ifs at h <;> obtain ⟨rfl, rfl, -⟩ := h
    · simp [TxCall.Posted, eio]
    · simpa only [TxCall.Posted, hpc] using hp
  | setW1 =>
    simp only [ethTxSection, hpc, Option.some.injEq, Prod.mk.injEq] at h
    obtain ⟨rfl, rfl, -⟩ := h
    simp only [TxCall.Posted, hpc] at hp
    by_cases hr : c.resetsAtEntry = resets
    · obtain ⟨hlen, hcur, h₀, hrun, hhead⟩ := hp hr
      have hrun' : PostedRun L c.frags.length h₀ (c.posted ++ [(q.txDescList.head,
          { q.txDescList.buf q.txDescList.head with
            w1 := txW1 c q.txDescList.head q.txDescList.len })]) := by
        rw [hhead, ← hlen]
        exact hrun.snoc (by rw [flag_txW1_last, TxCall.isLast, hlen])
      have hnext : moduloInc q.txDescList.head q.txDescList.len = slotAfter L h₀ (c.cur + 1) := by
        rw [hhead, hL]; exact moduloInc_slotAfter (by have := hrun.1; omega)
      by_cases hlast : c.isLast = true
      · have hn : c.cur + 1 = c.frags.length := of_decide_eq_true hlast
        simp only [TxCall.Posted, hlast, if_true]
        exact fun _ => ⟨by simp [hlen, hn], h₀, hrun'⟩
      · have hn : c.cur + 1 ≠ c.frags.length := fun h => hlast (decide_eq_true h)
        simp only [TxCall.Posted, hlast, Bool.false_eq_true, if_false]
        exact fun _ => ⟨by simp [hlen], by omega, h₀, hrun', hnext⟩
    · by_cases hlast : c.isLast <;>
        simp only [TxCall.Posted, hlast, if_true, if_false, Bool.false_eq_true] <;>
        exact fun h' => absurd h' hr
  | final =>
    simp only [ethTxSection, hpc] at h
    simp only [TxCall.Posted, hpc] at hp
    split_ifs at h with hc <;> obtain ⟨rfl, rfl, -⟩ := h
    · simp [TxCall.Posted, eio]
    · obtain ⟨hlen, h₀, hrun⟩ := hp (hcheck (not_not.mp hc))
      have hfl : (c.frags.modifyHead fun f => { f with data := c.fragOrig }).length =
          c.frags.length := by
        cases c.frags <;> rfl
      simp only [TxCall.Posted, hfl]
      exact ⟨hlen, h₀, hrun⟩
  | tstart =>
    simp only [ethTxSection, hpc, Option.some.injEq, Prod.mk.injEq] at h
    obtain ⟨rfl, rfl, -⟩ := h
    simp only [TxCall.Posted, hpc] at hp
    exact fun _ => hp
  | ret r => simp [ethTxSection, hpc] at h

/-- What a locked section keeps: the ring's length, the error counter and the call's entry
record; `head` moves only at the `w1` write. A call that has returned has no section left. -/
theorem ethTxSection_frame {q q' : TxQueue} {c c' : TxCall} {locked : Bool}
    (h : ethTxSection q c = some (c', q', locked)) :
    q'.txDescList.len = q.txDescList.len ∧ q'.errTxFlushedCount = q.errTxFlushedCount ∧
    (q'.txDescList.head = q.txDescList.head ∨
      q'.txDescList.head = moduloInc q.txDescList.head q.txDescList.len) ∧
    c'.resetsAtEntry = c.resetsAtEntry ∧ c'.atEntry = c.atEntry ∧ c.pc.returned = false := by
  unfold ethTxSection at h
  split at h
  · split at h
    · cases h; simp_all [TxPc.returned]
    · cases h
  · split at h <;> cases h <;> simp_all [TxPc.returned, TxQueue.setDesc]
  · cases h; simp_all [TxPc.returned, TxQueue.setDesc]
  · dsimp only at h
    split at h <;> cases h <;> simp_all [TxPc.returned, TxQueue.setDesc]
  · cases h; simp_all [TxPc.returned]
  · cases h

theorem TxCall.Posted.of_returned {L head head' resets resets' : Nat} {c : TxCall}
    (hr : c.pc.returned = true) (hp : c.Posted L head resets) : c.Posted L head' resets' := by
  unfold TxCall.Posted at hp ⊢
  split at hp <;> simp_all [TxPc.returned]

/-- A `tx_error_handler` run leaves each call's run as it was, or voids the call's claim to
one. -/
theorem TxCall.Posted.of_reset {L head head' resets : Nat} {c : TxCall}
    (hle : c.resetsAtEntry ≤ resets) (hp : c.Posted L head resets) :
    c.Posted L head' (resets + 1) := by
  unfold TxCall.Posted at hp ⊢
  split at hp <;> first | (intro h; omega) | exact hp

/-! ## Serial runs -/

/-- The invariant of serial runs, for a ring of `L` descriptors: the error counter counts the
recoveries, each call recorded both at its start, each call's run is as `TxCall.Posted` says,
and at most one call has not returned. -/
structure TxPostInv (L : Nat) (s : TxSys) : Prop where
  len : s.q.txDescList.len = L
  head : s.q.txDescList.head < L
  count : s.q.errTxFlushedCount = BitVec.ofNat 32 s.resets
  entry : ∀ i (hi : i < s.calls.length), s.calls[i].resetsAtEntry ≤ s.resets ∧
    s.calls[i].atEntry = BitVec.ofNat 32 s.calls[i].resetsAtEntry
  posted : ∀ i (hi : i < s.calls.length), s.calls[i].Posted L s.q.txDescList.head s.resets
  one : ∀ i (hi : i < s.calls.length) j (hj : j < s.calls.length),
    s.calls[i].pc.returned = false → s.calls[j].pc.returned = false → i = j

section
variable {L : Nat} {s s' : TxSys}

theorem TxPostInv.init {q : TxQueue} (hlen : 0 < q.txDescList.len) :
    TxPostInv q.txDescList.len (txInit q) :=
  ⟨rfl, hlen, rfl, fun _ hi => absurd hi (Nat.not_lt_zero _),
    fun _ hi => absurd hi (Nat.not_lt_zero _), fun _ hi => absurd hi (Nat.not_lt_zero _)⟩

/-- A new call, which may start only when every other call has returned. -/
theorem TxPostInv.call {pkt llReserve : Nat} {frags : List NetBuf} (hi : TxPostInv L s)
    (hser : s.calls.all (·.pc.returned)) (hne : frags ≠ []) :
    TxPostInv L { s with calls := s.calls ++ [ethTxEntry s.q s.resets pkt frags llReserve] } := by
  have hret : ∀ i (h : i < s.calls.length), s.calls[i].pc.returned = true := fun i h =>
    List.all_eq_true.mp hser _ (List.getElem_mem h)
  refine { hi with entry := fun i h => ?_, posted := fun i h => ?_, one := fun i h j h' => ?_ }
  all_goals simp only [List.length_append, List.length_singleton] at h
  · rw [List.getElem_append]
    split
    · exact hi.entry i ‹_›
    · simp only [List.getElem_singleton, ethTxEntry]
      exact ⟨le_refl _, hi.count⟩
  · rw [List.getElem_append]
    split
    · exact hi.posted i ‹_›
    · simp only [TxCall.Posted, ethTxEntry, List.getElem_singleton]
      refine fun _ => ⟨rfl, by simpa [List.length_set] using List.length_pos.mpr hne,
        s.q.txDescList.head, ⟨hi.head, rfl, fun k hk => absurd hk (Nat.not_lt_zero _)⟩, ?_⟩
      simp [slotAfter, Nat.mod_eq_of_lt hi.head]
  · simp only [List.length_append, List.length_singleton] at h'
    intro ha hb
    rw [List.getElem_append] at ha hb
    split at ha
    · rw [hret i ‹_›] at ha; cases ha
    · split at hb
      · rw [hret j ‹_›] at hb; cases hb
      · omega

/-- One locked section of call `t`, while every other call has returned. -/
theorem TxPostInv.run {t : Nat} {c c' : TxCall} {q' : TxQueue} {locked : Bool}
    {lock : Option Nat} {dma : TxDma} (hi : TxPostInv L s) (hres : s.resets < 2 ^ 32)
    (hc : s.calls[t]? = some c) (hsec : ethTxSection s.q c = some (c', q', locked)) :
    TxPostInv L { s with q := q', calls := s.calls.set t c', lock, dma } := by
  obtain ⟨ht, rfl⟩ := List.getElem?_eq_some_iff.mp hc
  obtain ⟨hlen, hcount, hhead, hre, hat, hact⟩ := ethTxSection_frame hsec
  have hother : ∀ i (h : i < s.calls.length), i ≠ t → s.calls[i].pc.returned = true :=
    fun i h hne => by
      by_contra hr
      exact hne (hi.one i h t ht (by simpa using hr) hact)
  refine ⟨hlen.trans hi.len, ?_, hcount.trans hi.count, fun i h => ?_, fun i h => ?_,
    fun i h j h' => ?_⟩
  · rcases hhead with hh | hh
    · exact hh ▸ hi.head
    · rw [hh, hi.len]; exact moduloInc_lt (by have := hi.head; omega)
  all_goals simp only [List.length_set] at h
  · simp only [List.getElem_set]
    split
    · subst_vars; rw [hre, hat]; exact hi.entry _ ht
    · exact hi.entry i h
  · simp only [List.getElem_set]
    split
    · subst_vars
      exact (hi.posted _ ht).of_ethTxSection hi.len hi.count (hi.entry _ ht).2 (hi.entry _ ht).1
        hres hsec
    · exact (hi.posted i h).of_returned (hother i h (Ne.symm ‹_›))
  · simp only [List.length_set] at h'
    simp only [List.getElem_set]
    intro ha hb
    split at ha <;> split at hb
    · omega
    · exact absurd (hother j h' (Ne.symm ‹_›)) (by simp [hb])
    · exact absurd (hother i h (Ne.symm ‹_›)) (by simp [ha])
    · exact hi.one i h j h' ha hb

/-- `tx_error_handler`: the ring starts over and one more recovery is counted. -/
theorem TxPostInv.reset (hi : TxPostInv L s) (hq : s'.q = (txErrorHandler s.q).1)
    (hc : s'.calls = s.calls) (hr : s'.resets = s.resets + 1) : TxPostInv L s' := by
  obtain ⟨q', calls', lock', dma', tcomp', txErr', log', resets'⟩ := s'
  simp only at hq hc hr
  subst hq hc hr
  refine ⟨hi.len, Nat.lt_of_le_of_lt (Nat.zero_le _) hi.head, ?_, fun i h => ?_,
    fun i h => (hi.posted i h).of_reset (hi.entry i h).1, hi.one⟩
  · show s.q.errTxFlushedCount + 1 = _
    rw [BitVec.ofNat_add, ← hi.count]; rfl
  · exact ⟨Nat.le_succ_of_le (hi.entry i h).1, (hi.entry i h).2⟩

/-- A step that leaves the calls, the recoveries and the ring's `head`, length and error
counter alone. -/
theorem TxPostInv.frame (hi : TxPostInv L s) (hlen : s'.q.txDescList.len = s.q.txDescList.len)
    (hhead : s'.q.txDescList.head = s.q.txDescList.head)
    (hcount : s'.q.errTxFlushedCount = s.q.errTxFlushedCount) (hc : s'.calls = s.calls)
    (hr : s'.resets = s.resets) : TxPostInv L s' := by
  obtain ⟨q', calls', lock', dma', tcomp', txErr', log', resets'⟩ := s'
  simp only at hlen hhead hcount hc hr
  subst hc hr
  exact ⟨hlen.trans hi.len, hhead ▸ hi.head, hcount.trans hi.count, hi.entry,
    fun i h => hhead ▸ hi.posted i h, hi.one⟩

theorem TxPostInv.step {e : TxStep} (hi : TxPostInv L s) (hser : e.serial s = true)
    (hres : s.resets < 2 ^ 32) (h : txStep s e = some s') : TxPostInv L s' := by
  rcases txStep_cases h with ⟨_, _, _, rfl, -, hne, rfl⟩ |
    ⟨_, _, _, _, _, -, -, hc, hsec, rfl⟩ | ⟨-, -, -, rfl⟩ | ⟨-, -, -, -, rfl⟩ | ⟨-, -, -, rfl⟩ |
    ⟨-, -, -, -, rfl⟩ | ⟨-, -, -, -, rfl⟩ | ⟨-, rfl⟩
  · exact hi.call (by simpa [TxStep.serial] using hser) hne
  · exact hi.run hres hc hsec
  · exact hi.reset rfl rfl rfl
  · obtain ⟨-, hl, hh, hcnt⟩ := txCompletedLoop_descList s.q.txDescList.len s.q
    exact hi.frame hl hh hcnt rfl rfl
  · exact hi.frame rfl rfl rfl rfl rfl
  · exact hi.frame rfl rfl rfl rfl rfl
  · exact hi.frame rfl rfl rfl rfl rfl
  · exact hi.frame rfl rfl rfl rfl rfl

/-- Only `tx_error_handler` counts a recovery. -/
theorem txStep_resets_le {e : TxStep} (h : txStep s e = some s') : s.resets ≤ s'.resets := by
  rcases txStep_cases h with ⟨_, _, _, -, -, -, rfl⟩ | ⟨_, _, _, _, _, -, -, -, -, rfl⟩ |
    ⟨-, -, -, rfl⟩ | ⟨-, -, -, -, rfl⟩ | ⟨-, -, -, rfl⟩ | ⟨-, -, -, -, rfl⟩ | ⟨-, -, -, -, rfl⟩ |
    ⟨-, rfl⟩
  all_goals first | exact le_refl _ | exact Nat.le_succ _

theorem TxPostInv.reachable {q : TxQueue} (hlen : 0 < q.txDescList.len)
    (h : TxSerialReachable q s) (hres : s.resets < 2 ^ 32) : TxPostInv q.txDescList.len s := by
  induction h with
  | init => exact TxPostInv.init hlen
  | step e _ hser hs ih =>
    have := txStep_resets_le hs
    exact (ih (by omega)).step hser (by omega) hs

end

/-- When `eth_tx` calls do not overlap and fewer than `2 ^ 32` TX error recoveries have run,
each call that returned 0 wrote one descriptor per fragment, on consecutive slots of the ring,
and set `LASTBUFFER` on the last of them only. -/
theorem serial_eth_tx_posts_one_run {q : TxQueue} {s : TxSys} (hlen : 0 < q.txDescList.len)
    (h : TxSerialReachable q s) (hres : s.resets < 2 ^ 32) :
    ∀ c ∈ s.calls, c.pc = .ret 0 → c.posted.length = c.frags.length ∧
      ∃ h₀ < q.txDescList.len,
        c.posted.map (·.1) = (List.range c.frags.length).map (slotAfter q.txDescList.len h₀) ∧
        ∀ k < c.frags.length, flag (c.posted.getD k (0, ⟨0, 0⟩)).2.w1 gmacTxw1Lastbuffer =
          decide (k + 1 = c.frags.length) := by
  intro c hc hret
  obtain ⟨i, hi, rfl⟩ := List.getElem_of_mem hc
  have hp := (TxPostInv.reachable hlen h hres).posted i hi
  unfold TxCall.Posted at hp
  rw [hret] at hp
  obtain ⟨hl, h₀, hh, hslots, hlast⟩ := hp rfl
  exact ⟨hl, h₀, hh, hl ▸ hslots, hl ▸ hlast⟩

/-- Packet 100 goes out on slots 0 and 1 and is completed; packet 101 then runs from slot 2 over
the ring's end to slot 0. -/
theorem serial_eth_tx_posts_one_run_wrapped :
    ∃ s, ([.call 100 [⟨0x20001000, 60⟩, ⟨0x20002000, 40⟩] 0, .run 0, .run 0, .run 0, .run 0, .run 0,
       .run 0, .run 0, .run 0, .dma, .dma, .isr,
       .call 101 [⟨0x20003000, 30⟩, ⟨0x20004000, 20⟩, ⟨0x20005000, 10⟩] 0, .run 1, .run 1,
       .run 1, .run 1, .run 1, .run 1, .run 1, .run 1, .run 1, .run 1, .run 1] : List TxStep).foldlM txSerialStep (txInit (staticTxQueue 4 4)) = some s ∧
      s.calls.map (fun c => c.posted.map (·.1)) = [[0, 1], [2, 3, 0]] ∧
      ∀ c ∈ s.calls, c.pc = .ret 0 → c.posted.length = c.frags.length ∧
        ∃ h₀ < 4, c.posted.map (·.1) = (List.range c.frags.length).map (slotAfter 4 h₀) ∧
          ∀ k < c.frags.length, flag (c.posted.getD k (0, ⟨0, 0⟩)).2.w1 gmacTxw1Lastbuffer =
            decide (k + 1 = c.frags.length) := by
  have hrun : (([.call 100 [⟨0x20001000, 60⟩, ⟨0x20002000, 40⟩] 0, .run 0, .run 0, .run 0, .run 0, .run 0,
       .run 0, .run 0, .run 0, .dma, .dma, .isr,
       .call 101 [⟨0x20003000, 30⟩, ⟨0x20004000, 20⟩, ⟨0x20005000, 10⟩] 0, .run 1, .run 1,
       .run 1, .run 1, .run 1, .run 1, .run 1, .run 1, .run 1, .run 1, .run 1] : List TxStep).foldlM txSerialStep (txInit (staticTxQueue 4 4))).map
      (fun s => (s.calls.map (fun c => c.posted.map (·.1)), s.resets)) =
      some ([[0, 1], [2, 3, 0]], 0) := by
    simp only [txInit, staticTxQueue, txDescriptorsInit, List.range, List.range.loop, List.foldl]
    decide
  obtain ⟨s, hs, hobs⟩ := Option.map_eq_some'.mp hrun
  simp only [Prod.mk.injEq] at hobs
  exact ⟨s, hs, hobs.1, serial_eth_tx_posts_one_run (q := staticTxQueue 4 4) (by decide)
    (TxSerialReachable.of_run _ .init hs) (by omega)⟩

end SamGmac.Tx
