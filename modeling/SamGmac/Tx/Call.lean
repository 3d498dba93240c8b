import SamGmac.Tx.Post

/-! # One `eth_tx` call

What one `eth_tx` call does to its packet, to the ring and to `tx_frames`, while the DMA and
`tx_completed` run beside it. `net_buf_push` moves the first fragment's data pointer back and
its length up; the call puts the pointer back before its last locked section, and never the
length.
-/

namespace SamGmac.Tx

open SamGmac

/-! ## The call at one index -/

theorem txStep_call {s s' : TxSys} {e : TxStep} {t : Nat} {c : TxCall}
    (h : txStep s e = some s') (hc : s.calls[t]? = some c) :
    s'.calls[t]? = some c ∨ ∃ c' q' locked, e = .run t ∧ ethTxSection s.q c = some (c', q', locked) ∧
      s' = { s with q := q', calls := s.calls.set t c', lock := if locked then some t else none,
                    dma := if c.pc = .tstart then s.dma.start else s.dma } := by
  rcases txStep_cases h with ⟨_, _, _, -, -, -, rfl⟩ |
    ⟨t', c₁, c', q', locked, rfl, -, hc₁, hsec, rfl⟩ | ⟨-, -, -, rfl⟩ | ⟨-, -, -, -, rfl⟩ |
    ⟨-, -, -, rfl⟩ | ⟨-, -, -, -, rfl⟩ | ⟨-, -, -, -, rfl⟩ | ⟨-, rfl⟩
  · exact .inl (by rw [List.getElem?_append_left (List.getElem?_eq_some_iff.mp hc).1]; exact hc)
  · by_cases htt : t' = t
    · subst htt
      rw [hc] at hc₁
      cases hc₁
      exact .inr ⟨c', q', locked, rfl, hsec, rfl⟩
    · exact .inl (by rw [List.getElem?_set_ne htt]; exact hc)
  all_goals exact .inl hc

/-- A property of a call that each of its sections keeps holds of the call at index `t` along any
run. -/
theorem txRun_call {P : TxCall → Prop}
    (hP : ∀ {q c c' q' locked}, P c → ethTxSection q c = some (c', q', locked) → P c')
    {s s' : TxSys} {steps : List TxStep} (h : txRun s steps = some s') {t : Nat} {c : TxCall}
    (hc : s.calls[t]? = some c) (hpc : P c) : ∃ c', s'.calls[t]? = some c' ∧ P c' := by
  induction steps generalizing s c with
  | nil => cases h; exact ⟨c, hc, hpc⟩
  | cons e steps ih =>
    simp only [txRun, List.foldlM_cons, Option.bind_eq_bind, Option.bind_eq_some] at h
    obtain ⟨s₁, h₁, h⟩ := h
    rcases txStep_call h₁ hc with hc₁ | ⟨c', q', locked, -, hsec, rfl⟩
    · exact ih h hc₁ hpc
    · exact ih h (List.getElem?_set_self (List.getElem?_eq_some_iff.mp hc).1) (hP hpc hsec)

theorem txStep_call_start {s s₁ : TxSys} {pkt llReserve : Nat} {frags : List NetBuf}
    (h : txStep s (.call pkt frags llReserve) = some s₁) :
    s.lock = none ∧ frags ≠ [] ∧
      s₁ = { s with calls := s.calls ++ [ethTxEntry s.q s.resets pkt frags llReserve] } := by
  rcases txStep_cases h with ⟨_, _, _, he, hl, hne, rfl⟩ | ⟨_, _, _, _, _, he, -⟩ | ⟨he, -⟩ |
    ⟨he, -⟩ | ⟨he, -⟩ | ⟨he, -⟩ | ⟨he, -⟩ | ⟨he, -⟩ <;> cases he
  exact ⟨hl, hne, rfl⟩

theorem ethTxEntry_at (s : TxSys) (pkt llReserve : Nat) (frags : List NetBuf) :
    (s.calls ++ [ethTxEntry s.q s.resets pkt frags llReserve])[s.calls.length]? =
      some (ethTxEntry s.q s.resets pkt frags llReserve) := by
  simp

/-! ## The pushed header -/

/-- The fragments after `net_buf_push` of `llReserve` bytes on the first, `f₀`: its length stays
up; its data pointer is moved back, or put back by the last locked section, and it is back once
the call has passed that section. -/
def HeaderPushed (f₀ : NetBuf) (fs : List NetBuf) (llReserve : Nat) (c : TxCall) : Prop :=
  c.fragOrig = f₀.data ∧ ∃ d, c.frags = ⟨d, f₀.len + BitVec.ofNat 16 llReserve⟩ :: fs ∧
    (d = f₀.data ∨ d = f₀.data - BitVec.ofNat 32 llReserve) ∧
    (c.pc = .tstart ∨ c.pc = .ret 0 → d = f₀.data)

theorem HeaderPushed.entry (q : TxQueue) (resets pkt : Nat) (f₀ : NetBuf) (fs : List NetBuf)
    (llReserve : Nat) : HeaderPushed f₀ fs llReserve (ethTxEntry q resets pkt (f₀ :: fs) llReserve) :=
  ⟨rfl, _, rfl, .inr rfl, by simp [ethTxEntry]⟩

theorem HeaderPushed.of_ethTxSection {f₀ : NetBuf} {fs : List NetBuf} {llReserve : Nat}
    {q q' : TxQueue} {c c' : TxCall} {locked : Bool} (hp : HeaderPushed f₀ fs llReserve c)
    (h : ethTxSection q c = some (c', q', locked)) : HeaderPushed f₀ fs llReserve c' := by
  obtain ⟨ho, d, hf, hd, hdone⟩ := hp
  unfold ethTxSection at h
  split at h
  · split at h
    · cases h; exact ⟨ho, d, hf, hd, by simp⟩
    · cases h
  · split at h <;> cases h <;> exact ⟨ho, d, hf, hd, by simp [eio]⟩
  · cases h; exact ⟨ho, d, hf, hd, by split <;> simp⟩
  · dsimp only at h
    split at h <;> cases h <;>
      exact ⟨ho, f₀.data, by simp [hf, ho, List.modifyHead], .inl rfl, fun _ => rfl⟩
  · cases h
    rename_i hpc
    exact ⟨ho, d, hf, hd, fun _ => hdone (.inl hpc)⟩
  · cases h

/-- On every path and in every interleaving, `eth_tx` leaves its first fragment `len + ll_reserve`
long, and returns 0 only with its data pointer back where it was. -/
theorem eth_tx_leaves_header_length {s₀ s : TxSys} {pkt llReserve : Nat} {f₀ : NetBuf}
    {fs : List NetBuf} {steps : List TxStep} {c : TxCall}
    (h : txRun s₀ (.call pkt (f₀ :: fs) llReserve :: steps) = some s)
    (hc : s.calls[s₀.calls.length]? = some c) :
    ∃ d, c.frags = ⟨d, f₀.len + BitVec.ofNat 16 llReserve⟩ :: fs ∧
      (d = f₀.data ∨ d = f₀.data - BitVec.ofNat 32 llReserve) ∧ (c.pc = .ret 0 → d = f₀.data) := by
  simp only [txRun, List.foldlM_cons, Option.bind_eq_bind, Option.bind_eq_some] at h
  obtain ⟨s₁, h₁, h⟩ := h
  obtain ⟨-, -, rfl⟩ := txStep_call_start h₁
  obtain ⟨c', hc', -, d, hf, hd, hdone⟩ := txRun_call HeaderPushed.of_ethTxSection h
    (ethTxEntry_at s₀ pkt llReserve _) (HeaderPushed.entry s₀.q s₀.resets pkt f₀ fs llReserve)
  rw [hc] at hc'
  cases hc'
  exact ⟨d, hf, hd, fun hr => hdone (.inr hr)⟩

/-- A 60-byte fragment under a 14-byte header, run alone, and with a TX error recovery before the
call's first locked section. -/
theorem eth_tx_leaves_header_length_runs :
    ∃ s s' c c',
      txRun (txInit (staticTxQueue 4 4))
        [.call 100 [⟨0x20001000, 60⟩] 14, .run 0, .run 0, .run 0, .run 0, .run 0] = some s ∧
      s.calls[0]? = some c ∧ c.pc = .ret 0 ∧ c.frags = [⟨0x20001000, 74⟩] ∧
      txRun (txInit (staticTxQueue 4 4))
        [.call 100 [⟨0x20001000, 60⟩] 14, .txError, .isr, .run 0, .run 0] = some s' ∧
      s'.calls[0]? = some c' ∧ c'.pc = .ret (-eio) ∧ c'.frags = [⟨0x20000FF2, 74⟩] ∧
      (∃ d, c.frags = ⟨d, (60 : BitVec 16) + BitVec.ofNat 16 14⟩ :: [] ∧
        (d = 0x20001000 ∨ d = 0x20001000 - BitVec.ofNat 32 14) ∧ (c.pc = .ret 0 → d = 0x20001000)) ∧
      (∃ d, c'.frags = ⟨d, (60 : BitVec 16) + BitVec.ofNat 16 14⟩ :: [] ∧
        (d = 0x20001000 ∨ d = 0x20001000 - BitVec.ofNat 32 14) ∧
        (c'.pc = .ret 0 → d = 0x20001000)) := by
  have h₁ : ((txRun (txInit (staticTxQueue 4 4))
      [.call 100 [⟨0x20001000, 60⟩] 14, .run 0, .run 0, .run 0, .run 0, .run 0]).bind
        fun s => s.calls[0]?).map (fun c => (c.pc, c.frags)) =
      some (.ret 0, [⟨0x20001000, 74⟩]) := by
    simp only [txInit, staticTxQueue, txDescriptorsInit, List.range, List.range.loop, List.foldl]
    decide
  have h₂ : ((txRun (txInit (staticTxQueue 4 4))
      [.call 100 [⟨0x20001000, 60⟩] 14, .txError, .isr, .run 0, .run 0]).bind
        fun s => s.calls[0]?).map (fun c => (c.pc, c.frags)) =
      some (.ret (-eio), [⟨0x20000FF2, 74⟩]) := by
    simp only [txInit, staticTxQueue, txDescriptorsInit, List.range, List.range.loop, List.foldl]
    decide
  obtain ⟨c, hc, hobs⟩ := Option.map_eq_some'.mp h₁
  obtain ⟨s, hs, hc⟩ := Option.bind_eq_some.mp hc
  obtain ⟨c', hc', hobs'⟩ := Option.map_eq_some'.mp h₂
  obtain ⟨s', hs', hc'⟩ := Option.bind_eq_some.mp hc'
  simp only [Prod.mk.injEq] at hobs hobs'
  exact ⟨s, s', c, c', hs, hc, hobs.1, hobs.2, hs', hc', hobs'.1, hobs'.2,
    eth_tx_leaves_header_length hs hc, eth_tx_leaves_header_length hs' hc'⟩

/-! ## What the rest of the TX side does meanwhile -/

@[simp] theorem TxQueue.setDesc_head (q : TxQueue) (i : Nat) (d : GmacDesc) :
    (q.setDesc i d).txDescList.head = q.txDescList.head := rfl
@[simp] theorem TxQueue.setDesc_frames (q : TxQueue) (i : Nat) (d : GmacDesc) :
    (q.setDesc i d).txFrames = q.txFrames := rfl
@[simp] theorem TxQueue.setDesc_sem (q : TxQueue) (i : Nat) (d : GmacDesc) :
    (q.setDesc i d).txDescSem = q.txDescSem := rfl
@[simp] theorem TxQueue.setDesc_count (q : TxQueue) (i : Nat) (d : GmacDesc) :
    (q.setDesc i d).errTxFlushedCount = q.errTxFlushedCount := rfl

/-- Two descriptors agree but for `USED` in word 1, the bit the DMA sets after sending. -/
def SameButUsed (d d' : GmacDesc) : Prop :=
  d.w0 = d'.w0 ∧ d.w1 &&& ~~~gmacTxw1Used = d'.w1 &&& ~~~gmacTxw1Used

theorem SameButUsed.refl (d : GmacDesc) : SameButUsed d d := ⟨rfl, rfl⟩

theorem SameButUsed.trans {d d' d'' : GmacDesc} (h : SameButUsed d d')
    (h' : SameButUsed d' d'') : SameButUsed d d'' := ⟨h.1.trans h'.1, h.2.trans h'.2⟩

theorem appendW1_used_same (d : GmacDesc) : SameButUsed (d.appendW1 gmacTxw1Used) d := by
  refine ⟨rfl, ?_⟩
  ext i
  simp only [GmacDesc.appendW1, BitVec.getLsbD_and, BitVec.getLsbD_or, BitVec.getLsbD_not,
    getLsbD_txw1Used]
  by_cases h : (i : Nat) = 31 <;> simp [h]

theorem flag_appendW1_used (d : GmacDesc) : flag (d.appendW1 gmacTxw1Used).w1 gmacTxw1Used = true := by
  simp [GmacDesc.appendW1, flag_txw1Used]

/-- What the DMA and `tx_completed` may do to the queue while a call runs: move `tail`, give
units back to `tx_desc_sem`, take from `tx_frames` at its `tail`, and set `USED` bits. -/
structure TxRely (q q' : TxQueue) : Prop where
  len : q'.txDescList.len = q.txDescList.len
  head : q'.txDescList.head = q.txDescList.head
  count : q'.errTxFlushedCount = q.errTxFlushedCount
  frames : q'.txFrames.buf = q.txFrames.buf ∧ q'.txFrames.head = q.txFrames.head ∧
    q'.txFrames.len = q.txFrames.len
  sem : q.txDescSem ≤ q'.txDescSem
  desc : ∀ j, SameButUsed (q'.txDescList.buf j) (q.txDescList.buf j)
  used : ∀ j, flag (q.txDescList.buf j).w1 gmacTxw1Used = true →
    flag (q'.txDescList.buf j).w1 gmacTxw1Used = true

theorem TxRely.refl (q : TxQueue) : TxRely q q :=
  ⟨rfl, rfl, rfl, ⟨rfl, rfl, rfl⟩, le_refl _, fun _ => .refl _, fun _ => id⟩

theorem TxRely.trans {q q' q'' : TxQueue} (h : TxRely q q') (h' : TxRely q' q'') : TxRely q q'' :=
  ⟨h'.len.trans h.len, h'.head.trans h.head, h'.count.trans h.count,
    ⟨h'.frames.1.trans h.frames.1, h'.frames.2.1.trans h.frames.2.1, h'.frames.2.2.trans h.frames.2.2⟩,
    h.sem.trans h'.sem, fun j => (h'.desc j).trans (h.desc j), fun j hj => h'.used j (h.used j hj)⟩

theorem TxRely.setUsed (q : TxQueue) (i : Nat) :
    TxRely q (q.setDesc i ((q.txDescList.buf i).appendW1 gmacTxw1Used)) := by
  refine ⟨rfl, rfl, rfl, ⟨rfl, rfl, rfl⟩, le_refl _, fun j => ?_, fun j hj => ?_⟩ <;>
    rw [TxQueue.setDesc_buf] <;> split
  · subst_vars; exact appendW1_used_same _
  · exact .refl _
  · subst_vars; exact flag_appendW1_used _
  · exact hj

theorem kSemGive_ge (limit count : Nat) : count ≤ kSemGive limit count := by
  unfold kSemGive; split <;> omega

theorem txCompletedLoop_rely (fuel : Nat) (q : TxQueue) : TxRely q (txCompletedLoop fuel q).1 := by
  induction fuel generalizing q with
  | zero => exact .refl q
  | succ fuel ih =>
    simp only [txCompletedLoop]
    split
    · exact .refl q
    · split
      · exact ⟨rfl, rfl, rfl, ⟨rfl, rfl, rfl⟩, kSemGive_ge _ _, fun _ => .refl _, fun _ => id⟩
      · refine TxRely.trans ?_ (ih _)
        exact ⟨rfl, rfl, rfl, ⟨rfl, rfl, rfl⟩, kSemGive_ge _ _, fun _ => .refl _, fun _ => id⟩

/-! ## The descriptors a call writes -/

theorem flag_txW1_used (c : TxCall) (head len : Nat) :
    flag (txW1 c head len) gmacTxw1Used = false := by
  unfold txW1
  split <;> split <;> simp [flag_txw1Used]

theorem txW1_len (c : TxCall) (head len : Nat) (h : c.frag.len.toNat < 2 ^ 14) :
    (txW1 c head len &&& gmacTxw1Len).toNat = c.frag.len.toNat := by
  have hw : txW1 c head len &&& gmacTxw1Len = c.frag.len.setWidth 32 &&& gmacTxw1Len := by
    unfold txW1
    ext i
    simp only [BitVec.getLsbD_and, BitVec.getLsbD_or, getLsbD_txw1Len]
    by_cases hi : (i : Nat) < 14
    · have h15 : (i : Nat) ≠ 15 := by omega
      have h30 : (i : Nat) ≠ 30 := by omega
      split <;> split <;> simp [hi, h15, h30]
    · simp [hi]
  rw [hw, BitVec.toNat_and, BitVec.toNat_setWidth, show gmacTxw1Len.toNat = 2 ^ 14 - 1 from rfl,
    Nat.and_pow_two_sub_one_eq_mod, Nat.mod_eq_of_lt (by omega : c.frag.len.toNat < 2 ^ 32),
    Nat.mod_eq_of_lt h]

/-- The ring `b` with the descriptors `ps` written over it in order. -/
def writeAll (b : Nat → GmacDesc) (ps : List (Nat × GmacDesc)) : Nat → GmacDesc :=
  ps.foldl (fun b p => setAt b p.1 p.2) b

theorem writeAll_snoc (b : Nat → GmacDesc) (ps : List (Nat × GmacDesc)) (p : Nat × GmacDesc) :
    writeAll b (ps ++ [p]) = setAt (writeAll b ps) p.1 p.2 := by
  simp [writeAll, List.foldl_append]

/-- `p` is the descriptor `eth_tx` writes for fragment `i` of `frags` in a ring of `L` from
`head = h`: at slot `h + i`, with the fragment's data pointer and length, `USED` clear,
`LASTBUFFER` on the last fragment only, `WRAP` on slot `L - 1` only. -/
def FragPosted (L h : Nat) (frags : List NetBuf) (i : Nat) (p : Nat × GmacDesc) : Prop :=
  p.1 = slotAfter L h i ∧ p.2.w0 = (frags.getD i ⟨0, 0⟩).data ∧
    (p.2.w1 &&& gmacTxw1Len).toNat = (frags.getD i ⟨0, 0⟩).len.toNat ∧
    flag p.2.w1 gmacTxw1Used = false ∧
    flag p.2.w1 gmacTxw1Lastbuffer = decide (i + 1 = frags.length) ∧
    flag p.2.w1 gmacTxw1Wrap = decide (p.1 = L - 1)

/-- How many of its locked sections a call has run. -/
def TxCall.sections (c : TxCall) : Nat :=
  match c.pc with
  | .take | .final => 3 * c.cur
  | .post | .tstart => 3 * c.cur + 1
  | .setW1 | .ret _ => 3 * c.cur + 2

theorem TxCall.sections_ethTxSection {q q' : TxQueue} {c c' : TxCall} {locked : Bool}
    (hc : q.errTxFlushedCount = c.atEntry) (hsec : ethTxSection q c = some (c', q', locked)) :
    c'.sections = c.sections + 1 := by
  cases hpc : c.pc <;> simp only [ethTxSection, hpc, hc, ne_eq, not_true_eq_false, if_false,
    Option.ite_none_right_eq_some, Option.some.injEq, Prod.mk.injEq] at hsec
  case take => obtain ⟨-, rfl, -⟩ := hsec; simp [TxCall.sections, hpc]
  case setW1 => obtain ⟨rfl, -⟩ := hsec; cases c.isLast <;> simp [TxCall.sections, hpc] <;> omega
  case ret => cases hsec
  all_goals obtain ⟨rfl, -⟩ := hsec; simp [TxCall.sections, hpc]

/-- `tx_frames` has the `buf`, `head` and `len` of `rb`; `tx_completed` may move `tail`. -/
def TxQueue.FramesAt (q : TxQueue) (rb : RingBuf Nat) : Prop :=
  q.txFrames.buf = rb.buf ∧ q.txFrames.head = rb.head ∧ q.txFrames.len = rb.len

theorem TxRely.framesAt {q q' : TxQueue} {rb : RingBuf Nat} (hr : TxRely q q') (h : q.FramesAt rb) :
    q'.FramesAt rb :=
  ⟨hr.frames.1.trans h.1, hr.frames.2.1.trans h.2.1, hr.frames.2.2.trans h.2.2⟩

section
variable (t L h : Nat) (b₀ : Nat → GmacDesc) (rb₀ : RingBuf Nat) (pkt : Nat) (fr : List NetBuf)

/-- Where a call that started on `tx_frames` `rb₀` with the fragments `fr` stands, by its program
counter: units in hand for the fragments left, the data pointer written before the status word,
and, once past its last check, `pkt` queued and `USED` on the slot after its frame. -/
def AlonePhase (q : TxQueue) (c : TxCall) : Prop :=
  match c.pc with
  | .take => c.frags = fr ∧ c.cur < fr.length ∧ fr.length ≤ q.txDescSem + c.cur ∧ q.FramesAt rb₀
  | .post => c.frags = fr ∧ c.cur < fr.length ∧ fr.length ≤ q.txDescSem + c.cur + 1 ∧
      q.FramesAt rb₀
  | .setW1 => c.frags = fr ∧ c.cur < fr.length ∧ fr.length ≤ q.txDescSem + c.cur + 1 ∧
      q.FramesAt rb₀ ∧ (q.txDescList.buf q.txDescList.head).w0 = (fr.getD c.cur ⟨0, 0⟩).data
  | .final => c.frags = fr ∧ c.cur = fr.length ∧ q.FramesAt rb₀
  | .tstart => c.cur = fr.length ∧ q.FramesAt (ringBufPut rb₀ pkt) ∧
      flag (q.txDescList.buf q.txDescList.head).w1 gmacTxw1Used = true
  | .ret r => r = 0 ∧ c.cur = fr.length ∧ q.FramesAt (ringBufPut rb₀ pkt) ∧
      flag (q.txDescList.buf q.txDescList.head).w1 gmacTxw1Used = true

/-- Call `t` after `n` of its sections, with no other call and no `tx_error_handler` since it
started at `head = h` of a ring of `L` descriptors `b₀`, on `tx_frames` `rb₀`, to send `pkt`
with the fragments `fr` (the header pushed on the first). Its descriptors so far are on
consecutive slots from `h`, and the ring is `b₀` with them written over it, up to `USED` bits. -/
structure AloneInv (n : Nat) (s : TxSys) (c : TxCall) : Prop where
  call : s.calls[t]? = some c
  pos : 0 < L
  len : s.q.txDescList.len = L
  head : s.q.txDescList.head = slotAfter L h c.cur
  lock : s.lock = if c.pc = .setW1 then some t else none
  count : s.q.errTxFlushedCount = c.atEntry
  pktEq : c.pkt = pkt
  phase : AlonePhase rb₀ pkt fr s.q c
  posted : c.posted.length = c.cur ∧
    ∀ i < c.cur, FragPosted L h fr i (c.posted.getD i (0, ⟨0, 0⟩))
  ring : ∀ j, (c.pc = .setW1 → j ≠ s.q.txDescList.head) →
    SameButUsed (s.q.txDescList.buf j) (writeAll b₀ c.posted j)
  sections : c.sections = n

end

/-! ## Each step keeps the invariant of a call alone -/

section
variable {t L h : Nat} {b₀ : Nat → GmacDesc} {rb₀ : RingBuf Nat} {pkt : Nat} {fr : List NetBuf}

theorem AloneInv.rely {n : Nat} {s s' : TxSys} {c : TxCall}
    (hi : AloneInv t L h b₀ rb₀ pkt fr n s c) (hr : TxRely s.q s'.q) (hl : s'.lock = s.lock)
    (hc : s'.calls = s.calls) : AloneInv t L h b₀ rb₀ pkt fr n s' c := by
  have hp := hi.phase
  refine { hi with call := hc ▸ hi.call, len := hr.len.trans hi.len, head := hr.head.trans hi.head,
                   lock := hl.trans hi.lock, count := hr.count.trans hi.count, phase := ?_,
                   ring := fun j hj => (hr.desc j).trans (hi.ring j fun hs => hr.head ▸ hj hs) }
  cases hpc : c.pc <;> simp only [AlonePhase, hpc] at hp ⊢
  · exact ⟨hp.1, hp.2.1, le_trans hp.2.2.1 (by have := hr.sem; omega), hr.framesAt hp.2.2.2⟩
  · exact ⟨hp.1, hp.2.1, le_trans hp.2.2.1 (by have := hr.sem; omega), hr.framesAt hp.2.2.2⟩
  · exact ⟨hp.1, hp.2.1, le_trans hp.2.2.1 (by have := hr.sem; omega), hr.framesAt hp.2.2.2.1,
      by rw [hr.head, (hr.desc _).1]; exact hp.2.2.2.2⟩
  · exact ⟨hp.1, hp.2.1, hr.framesAt hp.2.2⟩
  · exact ⟨hp.1, hr.framesAt hp.2.1, by rw [hr.head]; exact hr.used _ hp.2.2⟩
  · exact ⟨hp.1, hp.2.1, hr.framesAt hp.2.2.1, by rw [hr.head]; exact hr.used _ hp.2.2.2⟩

theorem AloneInv.env {n : Nat} {s s' : TxSys} {c : TxCall} {e : TxStep}
    (hi : AloneInv t L h b₀ rb₀ pkt fr n s c) (he : e = .dma ∨ e = .isr ∨ e = .txError)
    (hs : txStep s e = some s') (hres : s'.resets = s.resets) : AloneInv t L h b₀ rb₀ pkt fr n s' c := by
  rcases txStep_cases hs with ⟨_, _, _, rfl, -⟩ | ⟨_, _, _, _, _, rfl, -⟩ | ⟨-, -, -, rfl⟩ |
    ⟨-, -, -, -, rfl⟩ | ⟨-, -, -, rfl⟩ | ⟨-, -, -, -, rfl⟩ | ⟨-, -, -, -, rfl⟩ | ⟨-, rfl⟩
  · simp at he
  · simp at he
  · simp at hres
  · exact hi.rely (txCompletedLoop_rely _ _) rfl rfl
  · exact hi.rely (.refl _) rfl rfl
  · exact hi.rely (.refl _) rfl rfl
  · exact hi.rely (.setUsed _ _) rfl rfl
  · exact hi.rely (.refl _) rfl rfl

theorem AloneInv.section {n : Nat} {s : TxSys} {c c' : TxCall} {q' : TxQueue} {locked : Bool}
    (hfr : ∀ i < fr.length, (fr.getD i ⟨0, 0⟩).len.toNat < 2 ^ 14)
    (hi : AloneInv t L h b₀ rb₀ pkt fr n s c) (hsec : ethTxSection s.q c = some (c', q', locked))
    (dma : TxDma) :
    AloneInv t L h b₀ rb₀ pkt fr (n + 1)
      { s with q := q', calls := s.calls.set t c', lock := if locked then some t else none, dma }
      c' := by
  have hcall : (s.calls.set t c')[t]? = some c' :=
    List.getElem?_set_self (List.getElem?_eq_some_iff.mp hi.call).1
  have hp := hi.phase
  have hn : c'.sections = n + 1 := hi.sections ▸ TxCall.sections_ethTxSection hi.count hsec
  cases hpc : c.pc with
  | take =>
    simp only [AlonePhase, hpc] at hp
    obtain ⟨hf, hcur, hsem, hfa⟩ := hp
    simp only [ethTxSection, hpc, show 0 < s.q.txDescSem by omega, if_true, Option.some.injEq,
      Prod.mk.injEq] at hsec
    obtain ⟨rfl, rfl, rfl⟩ := hsec
    exact { hi with call := hcall, lock := by simp, phase := ⟨hf, hcur, by simp; omega, hfa⟩,
                    ring := fun j _ => hi.ring j (by simp [hpc]),
                    sections := hn }
  | post =>
    simp only [AlonePhase, hpc] at hp
    obtain ⟨hf, hcur, hsem, hfa⟩ := hp
    simp only [ethTxSection, hpc, hi.count, ne_eq, not_true_eq_false, if_false, Option.some.injEq,
      Prod.mk.injEq] at hsec
    obtain ⟨rfl, rfl, rfl⟩ := hsec
    refine { hi with call := hcall, lock := by simp, phase := ⟨hf, hcur, hsem, hfa, ?_⟩,
                     ring := fun j hj => ?_, sections := hn }
    · simp [TxQueue.setDesc_buf, TxCall.frag, hf]
    · have hj' : j ≠ s.q.txDescList.head := hj rfl
      rw [TxQueue.setDesc_buf, if_neg hj']
      exact hi.ring j (by simp [hpc])
  | setW1 =>
    simp only [AlonePhase, hpc] at hp
    obtain ⟨hf, hcur, hsem, hfa, hw0⟩ := hp
    simp only [ethTxSection, hpc, Option.some.injEq, Prod.mk.injEq] at hsec
    obtain ⟨rfl, rfl, rfl⟩ := hsec
    have hlast : c.isLast = decide (c.cur + 1 = fr.length) := by simp [TxCall.isLast, hf]
    have hlen : (txW1 c s.q.txDescList.head s.q.txDescList.len &&& gmacTxw1Len).toNat =
        (fr.getD c.cur ⟨0, 0⟩).len.toNat := by
      rw [txW1_len _ _ _ (by simpa [TxCall.frag, hf] using hfr _ hcur)]
      simp [TxCall.frag, hf]
    have hrec : FragPosted L h fr c.cur (s.q.txDescList.head,
        { s.q.txDescList.buf s.q.txDescList.head with
          w1 := txW1 c s.q.txDescList.head s.q.txDescList.len }) :=
      ⟨hi.head, hw0, hlen, flag_txW1_used _ _ _, by rw [flag_txW1_last, hlast],
        by rw [flag_txW1_wrap, hi.len]⟩
    refine { hi with call := hcall, head := ?_, lock := by split <;> simp, phase := ?_,
                     posted := ⟨by simp [hi.posted.1], fun i hi' => ?_⟩, ring := fun j _ => ?_,
                     sections := hn }
    · simp only [TxQueue.setDesc_len, hi.head, hi.len]
      exact moduloInc_slotAfter hi.pos
    · by_cases hl : c.isLast = true
      · have : c.cur + 1 = fr.length := by simpa [hlast] using hl
        simp only [AlonePhase, hl, if_true]
        exact ⟨hf, this, hfa⟩
      · have : c.cur + 1 ≠ fr.length := by simpa [hlast] using hl
        simp only [AlonePhase, hl, Bool.false_eq_true, if_false]
        exact ⟨hf, by omega, by simp; omega, hfa⟩
    · replace hi' : i < c.cur + 1 := hi'
      rcases Nat.lt_or_ge i c.cur with hlt | hge
      · rw [List.getD_append _ _ _ _ (hi.posted.1 ▸ hlt)]
        exact hi.posted.2 i hlt
      · obtain rfl : i = c.cur := by omega
        rw [List.getD_append_right _ _ _ _ (le_of_eq hi.posted.1), hi.posted.1, Nat.sub_self]
        exact hrec
    · simp only [TxQueue.setDesc_buf, writeAll_snoc, setAt_apply]
      split
      · exact .refl _
      · exact hi.ring j (fun _ => ‹_›)
  | final =>
    simp only [AlonePhase, hpc] at hp
    obtain ⟨hf, hcur, hfa⟩ := hp
    simp only [ethTxSection, hpc, hi.count, ne_eq, not_true_eq_false, if_false, Option.some.injEq,
      Prod.mk.injEq] at hsec
    obtain ⟨rfl, rfl, rfl⟩ := hsec
    refine { hi with call := hcall, lock := by simp, phase := ⟨hcur, ?_, ?_⟩, ring := fun j _ => ?_,
                     sections := hn }
    · simp [TxQueue.FramesAt, ringBufPut, hfa.1, hfa.2.1, hfa.2.2, hi.pktEq]
    · simp [TxQueue.setDesc_buf, flag_appendW1_used]
    · simp only [TxQueue.setDesc_buf]
      split
      · subst_vars
        exact (appendW1_used_same _).trans (hi.ring _ (by simp [hpc]))
      · exact hi.ring j (by simp [hpc])
  | tstart =>
    simp only [AlonePhase, hpc] at hp
    simp only [ethTxSection, hpc, Option.some.injEq, Prod.mk.injEq] at hsec
    obtain ⟨rfl, rfl, rfl⟩ := hsec
    exact { hi with call := hcall, lock := by simp, phase := ⟨rfl, hp⟩,
                    ring := fun j _ => hi.ring j (by simp [hpc]),
                    sections := hn }
  | ret r => simp [ethTxSection, hpc] at hsec

end

theorem txStep_run {s s' : TxSys} {t : Nat} {c : TxCall} (h : txStep s (.run t) = some s')
    (hc : s.calls[t]? = some c) :
    ∃ c' q' locked, ethTxSection s.q c = some (c', q', locked) ∧
      s' = { s with q := q', calls := s.calls.set t c', lock := if locked then some t else none,
                    dma := if c.pc = .tstart then s.dma.start else s.dma } := by
  rcases txStep_cases h with ⟨_, _, _, he, -⟩ | ⟨t', c₁, c', q', locked, he, -, hc₁, hsec, rfl⟩ |
    ⟨he, -⟩ | ⟨he, -⟩ | ⟨he, -⟩ | ⟨he, -⟩ | ⟨he, -⟩ | ⟨he, -⟩ <;> cases he
  rw [hc] at hc₁
  cases hc₁
  exact ⟨c', q', locked, hsec, rfl⟩

theorem txRun_resets_le {s s' : TxSys} {steps : List TxStep} (h : txRun s steps = some s') :
    s.resets ≤ s'.resets := by
  induction steps generalizing s with
  | nil => cases h; exact le_refl _
  | cons e steps ih =>
    simp only [txRun, List.foldlM_cons, Option.bind_eq_bind, Option.bind_eq_some] at h
    obtain ⟨s₁, h₁, h⟩ := h
    exact (txStep_resets_le h₁).trans (ih h)

section
variable {t L h : Nat} {b₀ : Nat → GmacDesc} {rb₀ : RingBuf Nat} {pkt : Nat} {fr : List NetBuf}

/-- Any run of the call's own sections, the DMA and `tx_completed` keeps the invariant. -/
theorem AloneInv.run {n : Nat} {s s' : TxSys} {c : TxCall} {steps : List TxStep}
    (hfr : ∀ i < fr.length, (fr.getD i ⟨0, 0⟩).len.toNat < 2 ^ 14)
    (hi : AloneInv t L h b₀ rb₀ pkt fr n s c)
    (hsteps : ∀ e ∈ steps, e = .run t ∨ e = .dma ∨ e = .isr ∨ e = .txError)
    (hrun : txRun s steps = some s') (hres : s'.resets = s.resets) :
    ∃ c', AloneInv t L h b₀ rb₀ pkt fr (n + steps.count (.run t)) s' c' := by
  induction steps generalizing n s c with
  | nil => cases hrun; exact ⟨c, hi⟩
  | cons e steps ih =>
    simp only [txRun, List.foldlM_cons, Option.bind_eq_bind, Option.bind_eq_some] at hrun
    obtain ⟨s₁, h₁, hrun⟩ := hrun
    have hres₁ : s'.resets = s₁.resets := by
      have := txStep_resets_le h₁; have := txRun_resets_le hrun; omega
    have hsteps' := fun e he => hsteps e (List.mem_cons_of_mem _ he)
    rcases hsteps e (List.mem_cons_self _ _) with rfl | he
    · obtain ⟨c', q', locked, hsec, rfl⟩ := txStep_run h₁ hi.call
      obtain ⟨c'', hc''⟩ := ih (hi.section hfr hsec _) hsteps' hrun hres₁
      exact ⟨c'', by rwa [List.count_cons_self, ← Nat.add_assoc, Nat.add_right_comm]⟩
    · obtain ⟨c'', hc''⟩ := ih (hi.env he h₁ (by omega)) hsteps' hrun hres₁
      have hne : e ≠ .run t := by rcases he with rfl | rfl | rfl <;> simp
      exact ⟨c'', by rwa [List.count_cons_of_ne hne.symm]⟩

theorem AloneInv.enabled {n : Nat} {s : TxSys} {c : TxCall}
    (hi : AloneInv t L h b₀ rb₀ pkt fr n s c) (hr : c.pc.returned = false) :
    txStep s (.run t) ≠ none := by
  have hp := hi.phase
  have hsome : (ethTxSection s.q c).isSome := by
    cases hpc : c.pc <;> simp only [AlonePhase, hpc] at hp
    · simp [ethTxSection, hpc, show 0 < s.q.txDescSem by omega]
    · simp [ethTxSection, hpc, hi.count]
    · simp [ethTxSection, hpc]
    · simp [ethTxSection, hpc, hi.count]
    · simp [ethTxSection, hpc]
    · simp [TxPc.returned, hpc] at hr
  obtain ⟨r, hsec⟩ := Option.isSome_iff_exists.mp hsome
  have hl : s.lock.any (fun x => !decide (x = t)) = false := by rw [hi.lock]; split <;> simp
  simp [txStep, hl, hi.call, hsec]

theorem AloneInv.returned_iff {n : Nat} {s : TxSys} {c : TxCall}
    (hi : AloneInv t L h b₀ rb₀ pkt fr n s c) : c.pc.returned = true ↔ n = 3 * fr.length + 2 := by
  have hp := hi.phase
  have hn := hi.sections
  cases hpc : c.pc <;> simp only [AlonePhase, hpc] at hp <;>
    simp only [TxPc.returned, TxCall.sections, hpc, Bool.false_eq_true, false_iff, true_iff] at hn ⊢
  · omega
  · omega
  · omega
  · omega
  · omega
  · omega

end

theorem AloneInv.start {s₀ : TxSys} {pkt llReserve : Nat} {f₀ : NetBuf} {fs : List NetBuf}
    (hlock : s₀.lock = none) (hh : s₀.q.txDescList.head < s₀.q.txDescList.len)
    (hsem : fs.length + 1 ≤ s₀.q.txDescSem) :
    AloneInv s₀.calls.length s₀.q.txDescList.len s₀.q.txDescList.head s₀.q.txDescList.buf
      s₀.q.txFrames pkt (f₀.push llReserve :: fs) 0
      { s₀ with calls := s₀.calls ++ [ethTxEntry s₀.q s₀.resets pkt (f₀ :: fs) llReserve] }
      (ethTxEntry s₀.q s₀.resets pkt (f₀ :: fs) llReserve) where
  call := ethTxEntry_at s₀ pkt llReserve _
  pos := by omega
  len := rfl
  head := (slotAfter_zero hh).symm
  lock := by simp [ethTxEntry, hlock]
  count := rfl
  pktEq := rfl
  phase := by
    simp only [AlonePhase, ethTxEntry]
    exact ⟨rfl, by simp, by simpa using hsem, rfl, rfl, rfl⟩
  posted := ⟨rfl, fun i hi => absurd hi (by simp [ethTxEntry])⟩
  ring := fun _ _ => .refl _
  sections := rfl

theorem NetBuf.push_len_toNat {b : NetBuf} {n : Nat} (h : b.len.toNat + n < 2 ^ 16) :
    (b.push n).len.toNat = b.len.toNat + n := by
  simp only [NetBuf.push, BitVec.toNat_add, BitVec.toNat_ofNat]
  rw [Nat.mod_eq_of_lt (show n < 2 ^ 16 by omega), Nat.mod_eq_of_lt h]

theorem push_lengths_lt {f₀ : NetBuf} {fs : List NetBuf} {llReserve : Nat}
    (hlen₀ : f₀.len.toNat + llReserve < 2 ^ 14) (hlen : ∀ f ∈ fs, f.len.toNat < 2 ^ 14) :
    ∀ i < (f₀.push llReserve :: fs).length,
      ((f₀.push llReserve :: fs).getD i ⟨0, 0⟩).len.toNat < 2 ^ 14 := by
  intro i hi
  cases i with
  | zero => rw [List.getD_cons_zero, NetBuf.push_len_toNat (by omega)]; exact hlen₀
  | succ i =>
    simp only [List.length_cons, Nat.add_lt_add_iff_right] at hi
    simpa [List.getElem?_eq_getElem hi] using hlen _ (List.getElem_mem hi)

/-- One `eth_tx` call with no other call or `tx_error_handler` during it is never stuck; after its
`3 k + 2` sections it has returned 0, posted its `k` fragments on the slots from `head`, set `USED`
after them and queued the packet. -/
theorem eth_tx_alone_posts_frame {s₀ s : TxSys} {pkt llReserve : Nat} {f₀ : NetBuf}
    {fs : List NetBuf} {steps : List TxStep}
    (hlock : s₀.lock = none) (hh : s₀.q.txDescList.head < s₀.q.txDescList.len)
    (hsem : fs.length + 1 ≤ s₀.q.txDescSem)
    (hlen₀ : f₀.len.toNat + llReserve < 2 ^ 14) (hlen : ∀ f ∈ fs, f.len.toNat < 2 ^ 14)
    (hsteps : ∀ e ∈ steps, e = .run s₀.calls.length ∨ e = .dma ∨ e = .isr ∨ e = .txError)
    (h : txRun s₀ (.call pkt (f₀ :: fs) llReserve :: steps) = some s)
    (hres : s.resets = s₀.resets) :
    ∃ c, s.calls[s₀.calls.length]? = some c ∧
      (c.pc.returned = false → txStep s (.run s₀.calls.length) ≠ none) ∧
      (c.pc.returned = true ↔ steps.count (.run s₀.calls.length) = 3 * (fs.length + 1) + 2) ∧
      (c.pc.returned = true →
        c.pc = .ret 0 ∧ c.posted.length = fs.length + 1 ∧
        (∀ i < fs.length + 1, FragPosted s₀.q.txDescList.len s₀.q.txDescList.head
          (f₀.push llReserve :: fs) i (c.posted.getD i (0, ⟨0, 0⟩))) ∧
        (c.posted.getD 0 (0, ⟨0, 0⟩)).2.w0 = f₀.data - BitVec.ofNat 32 llReserve ∧
        ((c.posted.getD 0 (0, ⟨0, 0⟩)).2.w1 &&& gmacTxw1Len).toNat = f₀.len.toNat + llReserve ∧
        (∀ j, SameButUsed (s.q.txDescList.buf j) (writeAll s₀.q.txDescList.buf c.posted j)) ∧
        flag (s.q.txDescList.buf (slotAfter s₀.q.txDescList.len s₀.q.txDescList.head
          (fs.length + 1))).w1 gmacTxw1Used = true ∧
        s.q.txDescList.head = slotAfter s₀.q.txDescList.len s₀.q.txDescList.head (fs.length + 1) ∧
        s.q.txFrames.buf = setAt s₀.q.txFrames.buf s₀.q.txFrames.head pkt ∧
        s.q.txFrames.head = moduloInc s₀.q.txFrames.head s₀.q.txFrames.len) := by
  simp only [txRun, List.foldlM_cons, Option.bind_eq_bind, Option.bind_eq_some] at h
  obtain ⟨s₁, h₁, h⟩ := h
  obtain ⟨-, -, rfl⟩ := txStep_call_start h₁
  obtain ⟨c, hi⟩ := (@AloneInv.start s₀ pkt llReserve f₀ fs hlock hh hsem).run
    (push_lengths_lt hlen₀ hlen) hsteps h hres
  rw [Nat.zero_add] at hi
  have hk : (f₀.push llReserve :: fs).length = fs.length + 1 := rfl
  refine ⟨c, hi.call, hi.enabled, hk ▸ hi.returned_iff, fun hr => ?_⟩
  have hp := hi.phase
  have hn := hi.sections
  cases hpc : c.pc <;> simp [TxPc.returned, hpc] at hr
  simp only [AlonePhase, hpc] at hp
  obtain ⟨rfl, hcur, hfa, hused⟩ := hp
  rw [hk] at hcur
  obtain ⟨hlen', hposted⟩ := hi.posted
  have hfirst := (hcur ▸ hposted) 0 (Nat.succ_pos _)
  refine ⟨rfl, hlen'.trans hcur, hcur ▸ hposted, hfirst.2.1, ?_, fun j => hi.ring j (by simp [hpc]),
    ?_, hi.head.trans (by rw [hcur]), hfa.1, hfa.2.1⟩
  · rw [hfirst.2.2.1, List.getD_cons_zero, NetBuf.push_len_toNat (by omega)]
  · rw [← hcur, ← hi.head]
    exact hused

/-- Packets 100 and 101 leave `head = 2`; packet 102 posts three fragments on slots 2, 3 and 0. -/
theorem eth_tx_alone_posts_frame_wrapped :
    ∃ s₀ s, txRun (txInit (staticTxQueue 4 4))
        [.call 100 [⟨0x20001000, 60⟩] 0, .run 0, .run 0, .run 0, .run 0, .run 0, .dma, .dma, .isr,
         .call 101 [⟨0x20002000, 60⟩] 0, .run 1, .run 1, .run 1, .run 1, .run 1, .dma, .dma, .isr] = some s₀ ∧
      s₀.lock = none ∧ s₀.q.txDescList.head < s₀.q.txDescList.len ∧
      [(⟨0x20004000, 40⟩ : NetBuf), ⟨0x20005000, 20⟩].length + 1 ≤ s₀.q.txDescSem ∧
      (60 : BitVec 16).toNat + 14 < 2 ^ 14 ∧
      (∀ f ∈ [(⟨0x20004000, 40⟩ : NetBuf), ⟨0x20005000, 20⟩], f.len.toNat < 2 ^ 14) ∧
      (∀ e ∈ List.replicate 11 (TxStep.run 2),
        e = .run s₀.calls.length ∨ e = .dma ∨ e = .isr ∨ e = .txError) ∧
      txRun s₀ (.call 102 (⟨0x20003000, 60⟩ :: [⟨0x20004000, 40⟩, ⟨0x20005000, 20⟩]) 14 ::
        List.replicate 11 (TxStep.run 2)) = some s ∧
      s.resets = s₀.resets ∧ s₀.q.txDescList.head = 2 ∧
      ∃ c, s.calls[s₀.calls.length]? = some c ∧
        (c.pc.returned = false → txStep s (.run s₀.calls.length) ≠ none) ∧
        (c.pc.returned = true ↔ (List.replicate 11 (TxStep.run 2)).count (.run s₀.calls.length) =
          3 * ([(⟨0x20004000, 40⟩ : NetBuf), ⟨0x20005000, 20⟩].length + 1) + 2) ∧
        (c.pc.returned = true →
          c.pc = .ret 0 ∧ c.posted.length = [(⟨0x20004000, 40⟩ : NetBuf), ⟨0x20005000, 20⟩].length + 1 ∧
          (∀ i < [(⟨0x20004000, 40⟩ : NetBuf), ⟨0x20005000, 20⟩].length + 1,
            FragPosted s₀.q.txDescList.len s₀.q.txDescList.head
              ((⟨0x20003000, 60⟩ : NetBuf).push 14 :: [⟨0x20004000, 40⟩, ⟨0x20005000, 20⟩]) i
              (c.posted.getD i (0, ⟨0, 0⟩))) ∧
          (c.posted.getD 0 (0, ⟨0, 0⟩)).2.w0 = (⟨0x20003000, 60⟩ : NetBuf).data - BitVec.ofNat 32 14 ∧
          ((c.posted.getD 0 (0, ⟨0, 0⟩)).2.w1 &&& gmacTxw1Len).toNat =
            (⟨0x20003000, 60⟩ : NetBuf).len.toNat + 14 ∧
          (∀ j, SameButUsed (s.q.txDescList.buf j) (writeAll s₀.q.txDescList.buf c.posted j)) ∧
          flag (s.q.txDescList.buf (slotAfter s₀.q.txDescList.len s₀.q.txDescList.head
            ([(⟨0x20004000, 40⟩ : NetBuf), ⟨0x20005000, 20⟩].length + 1))).w1 gmacTxw1Used = true ∧
          s.q.txDescList.head = slotAfter s₀.q.txDescList.len s₀.q.txDescList.head
            ([(⟨0x20004000, 40⟩ : NetBuf), ⟨0x20005000, 20⟩].length + 1) ∧
          s.q.txFrames.buf = setAt s₀.q.txFrames.buf s₀.q.txFrames.head 102 ∧
          s.q.txFrames.head = moduloInc s₀.q.txFrames.head s₀.q.txFrames.len) := by
  have h₀ : (txRun (txInit (staticTxQueue 4 4)) [.call 100 [⟨0x20001000, 60⟩] 0, .run 0, .run 0, .run 0, .run 0, .run 0, .dma, .dma, .isr,
         .call 101 [⟨0x20002000, 60⟩] 0, .run 1, .run 1, .run 1, .run 1, .run 1, .dma, .dma, .isr]).map
      (fun s => (s.calls.length, s.q.txDescList.head, s.q.txDescList.len, s.q.txDescSem, s.lock,
        s.resets)) = some (2, 2, 4, 3, none, 0) := by
    simp only [txInit, staticTxQueue, txDescriptorsInit, List.range, List.range.loop, List.foldl]
    decide
  have h₁ : ((txRun (txInit (staticTxQueue 4 4)) [.call 100 [⟨0x20001000, 60⟩] 0, .run 0, .run 0, .run 0, .run 0, .run 0, .dma, .dma, .isr,
         .call 101 [⟨0x20002000, 60⟩] 0, .run 1, .run 1, .run 1, .run 1, .run 1, .dma, .dma, .isr]).bind fun s₀ =>
      txRun s₀ (.call 102 (⟨0x20003000, 60⟩ :: [⟨0x20004000, 40⟩, ⟨0x20005000, 20⟩]) 14 ::
        List.replicate 11 (TxStep.run 2))).map (·.resets) = some 0 := by
    simp only [txInit, staticTxQueue, txDescriptorsInit, List.range, List.range.loop, List.foldl,
      List.replicate]
    decide
  obtain ⟨s₀, hs₀, hobs⟩ := Option.map_eq_some'.mp h₀
  obtain ⟨s, hs, hres⟩ := Option.map_eq_some'.mp h₁
  obtain ⟨s₀', hs₀', hs⟩ := Option.bind_eq_some.mp hs
  rw [hs₀] at hs₀'
  cases hs₀'
  simp only [Prod.mk.injEq] at hobs
  obtain ⟨hc, hh, hl, hsem, hlock, hr⟩ := hobs
  have hsteps : ∀ e ∈ List.replicate 11 (TxStep.run 2),
      e = .run s₀.calls.length ∨ e = .dma ∨ e = .isr ∨ e = .txError := by
    rw [hc]; decide
  exact ⟨s₀, s, hs₀, hlock, by omega, by simp [hsem], by decide, by decide, hsteps, hs,
    by rw [hres, hr], hh, eth_tx_alone_posts_frame hlock (by omega) (by simp [hsem]) (by decide)
      (by decide) hsteps hs (by rw [hres, hr])⟩

end SamGmac.Tx
