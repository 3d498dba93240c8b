import Mathlib.Data.BitVec
import Mathlib.Logic.Function.Basic

/-! # GMAC buffer descriptors

The two words of `struct gmac_desc`, the bits the driver reads and writes in them, and
`MODULO_INC`. The masks are defined in `eth_sam_gmac_priv.h`, which the driver includes but which
is not among the sources; their bit positions are the GMAC's.
-/

namespace SamGmac

/-! ## Bit layout -/

/-- From `eth_sam_gmac_priv.h`: `GMAC_RXW0_ADDR`, the buffer address in RX word 0 (bits 31:2). -/
def gmacRxw0Addr : BitVec 32 := (0x3FFFFFFF : BitVec 32) <<< 2
/-- From `eth_sam_gmac_priv.h`: `GMAC_RXW0_WRAP`, last descriptor of the RX ring (bit 1). -/
def gmacRxw0Wrap : BitVec 32 := 1#32 <<< 1
/-- From `eth_sam_gmac_priv.h`: `GMAC_RXW0_OWNERSHIP`, set once the GMAC filled the buffer. -/
def gmacRxw0Ownership : BitVec 32 := 1#32 <<< 0
/-- From `eth_sam_gmac_priv.h`: `GMAC_RXW1_LEN`, the frame length (bits 12:0). -/
def gmacRxw1Len : BitVec 32 := 0x1FFF
/-- From `eth_sam_gmac_priv.h`: `GMAC_RXW1_SOF`, start of frame (bit 14). -/
def gmacRxw1Sof : BitVec 32 := 1#32 <<< 14
/-- From `eth_sam_gmac_priv.h`: `GMAC_RXW1_EOF`, end of frame (bit 15). -/
def gmacRxw1Eof : BitVec 32 := 1#32 <<< 15
/-- From `eth_sam_gmac_priv.h`: `GMAC_TXW1_LEN`, the buffer length (bits 13:0). -/
def gmacTxw1Len : BitVec 32 := 0x3FFF
/-- From `eth_sam_gmac_priv.h`: `GMAC_TXW1_LASTBUFFER`, last buffer of a frame (bit 15). -/
def gmacTxw1Lastbuffer : BitVec 32 := 1#32 <<< 15
/-- From `eth_sam_gmac_priv.h`: `GMAC_TXW1_WRAP`, last descriptor of the TX ring (bit 30). -/
def gmacTxw1Wrap : BitVec 32 := 1#32 <<< 30
/-- From `eth_sam_gmac_priv.h`: `GMAC_TXW1_USED`, set while the GMAC may not read the buffer. -/
def gmacTxw1Used : BitVec 32 := 1#32 <<< 31

/-- `w & mask` is not zero: how the driver tests a flag. -/
def flag (w mask : BitVec 32) : Bool := w &&& mask != 0

theorem getLsbD_bit (k i : Nat) (hk : k < 32) : (1#32 <<< k).getLsbD i = decide (i = k) := by
  simp only [BitVec.getLsbD_shiftLeft, BitVec.getLsbD_one]
  by_cases h : i = k
  · subst h; simp [hk]
  · simp [h]; omega

theorem flag_bit (w : BitVec 32) (k : Nat) (hk : k < 32) : flag w (1#32 <<< k) = w.getLsbD k := by
  unfold flag
  by_cases hw : w.getLsbD k
  · have : (w &&& 1#32 <<< k).getLsbD k = true := by simp [getLsbD_bit k k hk, hw]
    simp only [hw, bne_iff_ne, ne_eq]
    rintro h0
    simp [h0] at this
  · have : w &&& 1#32 <<< k = 0 := by
      ext i
      simp only [BitVec.getLsbD_and, getLsbD_bit k i hk, BitVec.getLsbD_zero]
      by_cases h : (i : Nat) = k
      · subst h; simp [hw]
      · simp [h]
    simp [this, hw]

@[simp] theorem getLsbD_rxw0Ownership (i : Nat) : gmacRxw0Ownership.getLsbD i = decide (i = 0) :=
  getLsbD_bit 0 i (by omega)
@[simp] theorem getLsbD_rxw0Wrap (i : Nat) : gmacRxw0Wrap.getLsbD i = decide (i = 1) :=
  getLsbD_bit 1 i (by omega)
@[simp] theorem getLsbD_rxw1Sof (i : Nat) : gmacRxw1Sof.getLsbD i = decide (i = 14) :=
  getLsbD_bit 14 i (by omega)
@[simp] theorem getLsbD_rxw1Eof (i : Nat) : gmacRxw1Eof.getLsbD i = decide (i = 15) :=
  getLsbD_bit 15 i (by omega)
@[simp] theorem getLsbD_txw1Lastbuffer (i : Nat) :
    gmacTxw1Lastbuffer.getLsbD i = decide (i = 15) :=
  getLsbD_bit 15 i (by omega)
@[simp] theorem getLsbD_txw1Wrap (i : Nat) : gmacTxw1Wrap.getLsbD i = decide (i = 30) :=
  getLsbD_bit 30 i (by omega)
@[simp] theorem getLsbD_txw1Used (i : Nat) : gmacTxw1Used.getLsbD i = decide (i = 31) :=
  getLsbD_bit 31 i (by omega)

@[simp] theorem getLsbD_txw1Len (i : Nat) : gmacTxw1Len.getLsbD i = decide (i < 14) := by
  rw [BitVec.getLsbD, show gmacTxw1Len.toNat = 2 ^ 14 - 1 from rfl, Nat.testBit_two_pow_sub_one]

@[simp] theorem getLsbD_rxw1Len (i : Nat) : gmacRxw1Len.getLsbD i = decide (i < 13) := by
  rw [BitVec.getLsbD, show gmacRxw1Len.toNat = 2 ^ 13 - 1 from rfl, Nat.testBit_two_pow_sub_one]

@[simp] theorem getLsbD_rxw0Addr (i : Nat) :
    gmacRxw0Addr.getLsbD i = (decide (2 ≤ i) && decide (i < 32)) := by
  have h30 : (0x3FFFFFFF : BitVec 32).getLsbD (i - 2) = decide (i - 2 < 30) := by
    rw [BitVec.getLsbD, show (0x3FFFFFFF : BitVec 32).toNat = 2 ^ 30 - 1 from rfl,
      Nat.testBit_two_pow_sub_one]
  rw [gmacRxw0Addr, BitVec.getLsbD_shiftLeft, h30]
  by_cases h : 2 ≤ i <;> by_cases h' : i < 32 <;> simp [h, h']; omega

theorem flag_rxw0Ownership (w : BitVec 32) : flag w gmacRxw0Ownership = w.getLsbD 0 :=
  flag_bit w 0 (by omega)
theorem flag_rxw0Wrap (w : BitVec 32) : flag w gmacRxw0Wrap = w.getLsbD 1 :=
  flag_bit w 1 (by omega)
theorem flag_rxw1Sof (w : BitVec 32) : flag w gmacRxw1Sof = w.getLsbD 14 :=
  flag_bit w 14 (by omega)
theorem flag_rxw1Eof (w : BitVec 32) : flag w gmacRxw1Eof = w.getLsbD 15 :=
  flag_bit w 15 (by omega)
theorem flag_txw1Lastbuffer (w : BitVec 32) : flag w gmacTxw1Lastbuffer = w.getLsbD 15 :=
  flag_bit w 15 (by omega)
theorem flag_txw1Wrap (w : BitVec 32) : flag w gmacTxw1Wrap = w.getLsbD 30 :=
  flag_bit w 30 (by omega)
theorem flag_txw1Used (w : BitVec 32) : flag w gmacTxw1Used = w.getLsbD 31 :=
  flag_bit w 31 (by omega)

/-- Setting `OWNERSHIP` or `WRAP` in an RX word 0 leaves its address field alone. -/
theorem or_low_bit_and_rxw0Addr (w : BitVec 32) {k : Nat} (hk : k < 2) :
    (w ||| 1#32 <<< k) &&& gmacRxw0Addr = w &&& gmacRxw0Addr := by
  ext i
  simp only [BitVec.getLsbD_and, BitVec.getLsbD_or, getLsbD_bit k i (by omega), getLsbD_rxw0Addr]
  by_cases h : (i : Nat) = k
  · simp [h]; omega
  · simp [h]

theorem or_ownership_and_rxw0Addr (w : BitVec 32) :
    (w ||| gmacRxw0Ownership) &&& gmacRxw0Addr = w &&& gmacRxw0Addr :=
  or_low_bit_and_rxw0Addr w (by omega)

theorem or_wrap_and_rxw0Addr (w : BitVec 32) :
    (w ||| gmacRxw0Wrap) &&& gmacRxw0Addr = w &&& gmacRxw0Addr :=
  or_low_bit_and_rxw0Addr w (by omega)

theorem flag_wrap_or_ownership (w : BitVec 32) :
    flag (w ||| gmacRxw0Ownership) gmacRxw0Wrap = flag w gmacRxw0Wrap := by
  simp [flag_rxw0Wrap]

/-! ## Descriptors and rings -/

/-- `struct gmac_desc`: word 0 holds the buffer address, word 1 the status. -/
structure GmacDesc where
  w0 : BitVec 32
  w1 : BitVec 32
  deriving DecidableEq, Repr

/-- `struct gmac_desc_list`: the ring, its length, and the indices the driver keeps. -/
structure GmacDescList where
  buf : Nat → GmacDesc
  len : Nat
  head : Nat
  tail : Nat

/-- `gmac_desc_append_w1`: OR bits into the status word. -/
def GmacDesc.appendW1 (d : GmacDesc) (v : BitVec 32) : GmacDesc := { d with w1 := d.w1 ||| v }

/-- `MODULO_INC(val, max)`: `val = (++val < max) ? val : 0`. The rings are far shorter than
the 16-bit indices, so the increment never wraps. -/
def moduloInc (val max : Nat) : Nat := bif (val + 1).blt max then val + 1 else 0

theorem moduloInc_apply (val max : Nat) :
    moduloInc val max = if val + 1 < max then val + 1 else 0 := by
  unfold moduloInc
  by_cases h : val + 1 < max
  · have : (val + 1).blt max = true := by rw [Nat.blt_eq]; exact h
    simp [this, h]
  · have : (val + 1).blt max = false := by
      rw [← Bool.not_eq_true, Nat.blt_eq]; exact h
    simp [this, h]

theorem moduloInc_lt {val max : Nat} (h : 0 < max) : moduloInc val max < max := by
  rw [moduloInc_apply]; split <;> omega

theorem moduloInc_eq {val max : Nat} (h : val < max) : moduloInc val max = (val + 1) % max := by
  rw [moduloInc_apply]
  split
  · rw [Nat.mod_eq_of_lt ‹_›]
  · rw [show val + 1 = max by omega, Nat.mod_self]

/-- The array `f` with `v` stored at index `i`. -/
def setAt {α : Type} (f : Nat → α) (i : Nat) (v : α) : Nat → α := fun j => bif j.beq i then v else f j

theorem setAt_apply {α : Type} (f : Nat → α) (i : Nat) (v : α) (j : Nat) :
    setAt f i v j = if j = i then v else f j := by
  unfold setAt
  by_cases h : j = i
  · subst h; simp
  · simp [h, Bool.eq_false_iff.mpr fun hb => h (Nat.eq_of_beq_eq_true hb)]

@[simp] theorem setAt_same {α : Type} (f : Nat → α) (i : Nat) (v : α) : setAt f i v i = v := by
  simp [setAt_apply]

@[simp] theorem setAt_ne {α : Type} (f : Nat → α) {i j : Nat} (v : α) (h : j ≠ i) :
    setAt f i v j = f j := by
  simp [setAt_apply, h]

/-- A loop that writes `v` into slots `0 … n - 1`. -/
theorem foldl_setAt_range {α : Type} (n : Nat) (v : α) (f : Nat → α) (j : Nat) :
    ((List.range n).foldl (fun b i => setAt b i v) f) j = if j < n then v else f j := by
  induction n generalizing j with
  | zero => simp
  | succ n ih =>
    rw [List.range_succ, List.foldl_append, List.foldl_cons, List.foldl_nil, setAt_apply, ih]
    by_cases h : j = n
    · simp [h]
    · have : j < n + 1 ↔ j < n := by omega
      simp only [h, if_false, this]

/-- The slot `k` places after `i` in a ring of `len` slots. -/
def slotAfter (len i k : Nat) : Nat := (i + k) % len

theorem moduloInc_slotAfter {len i k : Nat} (h : 0 < len) :
    moduloInc (slotAfter len i k) len = slotAfter len i (k + 1) := by
  simp only [slotAfter]
  rw [moduloInc_eq (Nat.mod_lt _ h), Nat.mod_add_mod, Nat.add_assoc]

theorem slotAfter_zero {len i : Nat} (h : i < len) : slotAfter len i 0 = i := Nat.mod_eq_of_lt h

theorem slotAfter_slotAfter (len i j k : Nat) :
    slotAfter len (slotAfter len i j) k = slotAfter len i (j + k) := by
  simp only [slotAfter, Nat.mod_add_mod, Nat.add_assoc]

theorem slotAfter_moduloInc {len t : Nat} (ht : t < len) (j : Nat) :
    slotAfter len (moduloInc t len) j = slotAfter len t (j + 1) := by
  simp only [slotAfter]
  rw [moduloInc_eq ht, Nat.mod_add_mod]
  congr 1
  omega

/-- Every slot of the ring is some number of steps, fewer than `len`, after any other. -/
theorem slotAfter_back {len i t : Nat} (hi : i < len) (ht : t < len) :
    slotAfter len t ((i + len - t) % len) = i := by
  rw [slotAfter, Nat.add_mod_mod, show t + (i + len - t) = i + len by omega, Nat.add_mod_right,
    Nat.mod_eq_of_lt hi]

/-- Fewer than `len` steps from one slot never meet. -/
theorem slotAfter_inj {len i j k : Nat} (hj : j < len) (hk : k < len)
    (h : slotAfter len i j = slotAfter len i k) : j = k := by
  have := Nat.ModEq.add_left_cancel' i h
  rwa [Nat.ModEq, Nat.mod_eq_of_lt hj, Nat.mod_eq_of_lt hk] at this

end SamGmac
