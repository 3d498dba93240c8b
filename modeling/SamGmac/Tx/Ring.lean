import SamGmac.Tx.System

/-! # The `WRAP` bits of the TX ring

Every path that writes a TX descriptor keeps `GMAC_TXW1_WRAP` on the ring's last descriptor and
off the others: `eth_tx` computes it from the index it writes, its sentinel and the DMA only OR
in `USED`, and `tx_error_handler` runs `tx_descriptors_init` again.
-/

namespace SamGmac.Tx

open SamGmac

/-- `WRAP` is set on the last descriptor of the ring and on no other. -/
def TxQueue.WrapOk (q : TxQueue) : Prop :=
  ∀ i < q.txDescList.len,
    flag (q.txDescList.buf i).w1 gmacTxw1Wrap = decide (i = q.txDescList.len - 1)

/-! ## What each write does to `WRAP` -/

theorem flag_txW1_wrap (c : TxCall) (head len : Nat) :
    flag (txW1 c head len) gmacTxw1Wrap = decide (head = len - 1) := by
  unfold txW1
  split <;> split <;> simp [flag_txw1Wrap, *]

theorem flag_appendW1_used_wrap (d : GmacDesc) :
    flag (d.appendW1 gmacTxw1Used).w1 gmacTxw1Wrap = flag d.w1 gmacTxw1Wrap := by
  simp [GmacDesc.appendW1, flag_txw1Wrap]

theorem txInitDesc_wrap (len i : Nat) :
    flag (txInitDesc len i).w1 gmacTxw1Wrap = decide (i = len - 1) := by
  unfold txInitDesc
  split <;> simp [flag_txw1Wrap, *]

theorem TxQueue.WrapOk.setDesc {q : TxQueue} {i : Nat} {d : GmacDesc} (hw : q.WrapOk)
    (hd : i < q.txDescList.len →
      flag d.w1 gmacTxw1Wrap = decide (i = q.txDescList.len - 1)) :
    (q.setDesc i d).WrapOk := by
  intro j hj
  rw [TxQueue.setDesc_buf]
  split
  · subst_vars; exact hd hj
  · exact hw j hj

/-- OR-ing `USED` into a descriptor, as the DMA and `eth_tx`'s sentinel do. -/
theorem TxQueue.WrapOk.setUsed {q : TxQueue} (hw : q.WrapOk) (i : Nat) :
    (q.setDesc i ((q.txDescList.buf i).appendW1 gmacTxw1Used)).WrapOk :=
  hw.setDesc fun hi => (flag_appendW1_used_wrap _).trans (hw i hi)

theorem txDescriptorsInit_wrapOk (q : TxQueue) : (txDescriptorsInit q).WrapOk := fun i hi => by
  rw [txDescriptorsInit_buf q hi, txInitDesc_wrap]; rfl

/-- `tx_completed` writes no descriptor and moves only `tail`. -/
theorem txCompletedLoop_descList (fuel : Nat) (q : TxQueue) :
    (txCompletedLoop fuel q).1.txDescList.buf = q.txDescList.buf ∧
      (txCompletedLoop fuel q).1.txDescList.len = q.txDescList.len ∧
      (txCompletedLoop fuel q).1.txDescList.head = q.txDescList.head ∧
      (txCompletedLoop fuel q).1.errTxFlushedCount = q.errTxFlushedCount := by
  induction fuel generalizing q with
  | zero => exact ⟨rfl, rfl, rfl, rfl⟩
  | succ fuel ih =>
    simp only [txCompletedLoop]
    split
    · exact ⟨rfl, rfl, rfl, rfl⟩
    · split
      · exact ⟨rfl, rfl, rfl, rfl⟩
      · exact ih _

theorem TxQueue.WrapOk.of_txCompleted {q : TxQueue} (hw : q.WrapOk) :
    (txCompleted q).1.WrapOk := by
  obtain ⟨hb, hl, -⟩ := txCompletedLoop_descList q.txDescList.len q
  unfold TxQueue.WrapOk txCompleted
  rw [hb, hl]
  exact hw

theorem txErrorHandler_wrapOk (q : TxQueue) : (txErrorHandler q).1.WrapOk :=
  txDescriptorsInit_wrapOk _

/-- One locked section of `eth_tx`: only the `w1` write at `head` touches `WRAP`, and it sets it
from `head`. -/
theorem TxQueue.WrapOk.of_ethTxSection {q q' : TxQueue} {c c' : TxCall} {locked : Bool}
    (hw : q.WrapOk) (h : ethTxSection q c = some (c', q', locked)) : q'.WrapOk := by
  unfold ethTxSection at h
  split at h
  · split at h
    · cases h; exact hw
    · cases h
  · split at h
    · cases h; exact hw
    · cases h; exact hw.setDesc fun hi => hw _ hi
  · cases h
    exact hw.setDesc (i := q.txDescList.head) (d := { q.txDescList.buf q.txDescList.head with
      w1 := txW1 c q.txDescList.head q.txDescList.len }) fun _ => flag_txW1_wrap _ _ _
  · dsimp only at h
    split at h
    · cases h; exact hw
    · cases h; exact hw.setUsed _
  · cases h; exact hw
  · cases h

theorem TxQueue.WrapOk.of_txStep {s s' : TxSys} {e : TxStep} (hw : s.q.WrapOk)
    (h : txStep s e = some s') : s'.q.WrapOk := by
  rcases txStep_cases h with ⟨-, -, -, -, -, -, rfl⟩ | ⟨_, _, _, _, _, -, -, -, hsec, rfl⟩ |
    ⟨-, -, -, rfl⟩ | ⟨-, -, -, -, rfl⟩ | ⟨-, -, -, rfl⟩ | ⟨-, -, -, -, rfl⟩ |
    ⟨-, -, -, -, rfl⟩ | ⟨-, rfl⟩
  · exact hw
  · exact hw.of_ethTxSection hsec
  · exact txErrorHandler_wrapOk _
  · exact hw.of_txCompleted
  · exact hw
  · exact hw
  · exact hw.setUsed _
  · exact hw

theorem TxReachable.wrapOk {q : TxQueue} {s : TxSys} (h : TxReachable q s) : s.q.WrapOk := by
  induction h with
  | init => exact txDescriptorsInit_wrapOk q
  | step e _ hs ih => exact ih.of_txStep hs

end SamGmac.Tx
