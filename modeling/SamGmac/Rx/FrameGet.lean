import SamGmac.Rx.Queue

/-! # frame_get and eth_rx as whole calls

`frame_get` and `eth_rx` on a queue the DMA leaves alone while they run, each loop as the source
writes it, with one unit of fuel per turn. An `__ASSERT` of `frame_get` that fails stops the call
with its message. The system model's steps share `frameGetTurn` and `frameGetEnd` with this one,
and its scan, `frameGetStart`, is the first loop here given one turn per descriptor.
-/

namespace SamGmac.Rx

open SamGmac

/-! ## Loops with fuel -/

/-- `while (cond(s)) s = body(s);`, one unit of fuel per turn: `none` when the fuel runs out with
`cond` still true, and the error of a turn that stops with one. -/
def whileFuel {σ ε : Type} (cond : σ → Bool) (body : σ → Except ε σ) :
    Nat → σ → Option (Except ε σ)
  | 0, s => if cond s then none else some (.ok s)
  | fuel + 1, s =>
    if cond s then
      match body s with
      | .ok s' => whileFuel cond body fuel s'
      | .error e => some (.error e)
    else some (.ok s)

section
variable {σ ε : Type} {cond : σ → Bool} {body : σ → Except ε σ}

theorem whileFuel_of_not {s : σ} (h : cond s = false) (fuel : Nat) :
    whileFuel cond body fuel s = some (.ok s) := by
  cases fuel <;> simp [whileFuel, h]

theorem whileFuel_run (f : Nat → σ) (k : Nat)
    (hturn : ∀ m < k, cond (f m) = true ∧ body (f m) = .ok (f (m + 1)))
    (hend : cond (f k) = false) (fuel : Nat) (hk : k ≤ fuel) :
    whileFuel cond body fuel (f 0) = some (.ok (f k)) := by
  induction k generalizing f fuel with
  | zero => exact whileFuel_of_not hend fuel
  | succ k ih =>
    obtain ⟨fuel, rfl⟩ : ∃ n, fuel = n + 1 := ⟨fuel - 1, by omega⟩
    obtain ⟨hc, hb⟩ := hturn 0 (by omega)
    simp only [whileFuel, hc, if_true, hb]
    exact ih (fun m => f (m + 1)) (fun m hm => hturn (m + 1) (by omega)) hend fuel (by omega)

theorem whileFuel_mono {fuel fuel' : Nat} {s : σ} {r : Except ε σ}
    (h : whileFuel cond body fuel s = some r) (hle : fuel ≤ fuel') :
    whileFuel cond body fuel' s = some r := by
  induction fuel generalizing fuel' s with
  | zero =>
    cases hc : cond s
    · simp only [whileFuel, hc, Bool.false_eq_true, if_false, Option.some.injEq] at h
      exact h ▸ whileFuel_of_not hc fuel'
    · simp [whileFuel, hc] at h
  | succ fuel ih =>
    obtain ⟨fuel', rfl⟩ : ∃ f, fuel' = f + 1 := ⟨fuel' - 1, by omega⟩
    cases hc : cond s
    · simpa [whileFuel, hc] using h
    · simp only [whileFuel, hc, if_true] at h ⊢
      cases hb : body s with
      | error e => simpa [hb] using h
      | ok s' => simp only [hb] at h ⊢; exact ih h (by omega)

theorem whileFuel_det {fuel fuel' : Nat} {s : σ} {r r' : Except ε σ}
    (h : whileFuel cond body fuel s = some r) (h' : whileFuel cond body fuel' s = some r') :
    r = r' :=
  Option.some.inj ((whileFuel_mono h (le_max_left fuel fuel')).symm.trans
    (whileFuel_mono h' (le_max_right fuel fuel')))

theorem whileFuel_diverges (I : σ → Prop)
    (hI : ∀ s, I s → cond s = true ∧ ∃ s', body s = .ok s' ∧ I s') (fuel : Nat) (s : σ)
    (hs : I s) : whileFuel cond body fuel s = none := by
  induction fuel generalizing s with
  | zero => simp [whileFuel, (hI s hs).1]
  | succ fuel ih =>
    obtain ⟨hc, s', hb, hs'⟩ := hI s hs
    simp only [whileFuel, hc, if_true, hb]
    exact ih s' hs'

theorem whileFuel_ne_none (I : σ → Prop) (μ : σ → Nat)
    (hI : ∀ s, I s → cond s = true → 0 < μ s ∧ ∀ s', body s = .ok s' → I s' ∧ μ s' < μ s)
    (fuel : Nat) (s : σ) (hs : I s) (hμ : μ s ≤ fuel) : whileFuel cond body fuel s ≠ none := by
  induction fuel generalizing s with
  | zero =>
    cases hc : cond s
    · simp [whileFuel, hc]
    · exact absurd (hI s hs hc).1 (by omega)
  | succ fuel ih =>
    cases hc : cond s
    · simp [whileFuel, hc]
    · simp only [whileFuel, hc, if_true]
      split
      · rename_i s' hb
        obtain ⟨hs', hlt⟩ := (hI s hs hc).2 s' hb
        exact ih s' hs' (by omega)
      · simp

/-- The rule of the loop for an invariant `I`: it never stops with an error, and stops, if it does,
in a state of `I` where the guard fails. -/
theorem whileFuel_inv (I : σ → Prop)
    (hI : ∀ s, I s → cond s = true → ∃ s', body s = .ok s' ∧ I s') :
    ∀ fuel s, I s → ∀ r, whileFuel cond body fuel s = some r → ∃ s', r = .ok s' ∧ I s' ∧ cond s' = false
  | 0, s, hs, r, h => by
    cases hc : cond s <;> simp [whileFuel, hc] at h
    exact ⟨s, h.symm, hs, hc⟩
  | fuel + 1, s, hs, r, h => by
    cases hc : cond s
    · simp only [whileFuel, hc, Bool.false_eq_true, if_false, Option.some.injEq] at h
      exact ⟨s, h.symm, hs, hc⟩
    · obtain ⟨s', hb, hs'⟩ := hI s hs hc
      simp only [whileFuel, hc, if_true, hb] at h
      exact whileFuel_inv I hI fuel s' hs' r h

end

/-! ## frame_get -/

/-- The guard of `frame_get`'s first loop, over `(tail, frame_is_complete)`: the descriptor at
the tail is the driver's and no `EOF` has been seen. -/
def frameGetScanGuard (l : GmacDescList) (s : Nat × Bool) : Bool :=
  flag (l.buf s.1).w0 gmacRxw0Ownership && !s.2

/-- A turn of `frame_get`'s first loop: note the `EOF` bit and move on. -/
def frameGetScanBody (l : GmacDescList) (s : Nat × Bool) : Except String (Nat × Bool) :=
  .ok (moduloInc s.1 l.len, flag (l.buf s.1).w1 gmacRxw1Eof)

/-- The first loop of `frame_get`, from the tail. -/
def frameGetScan (l : GmacDescList) (fuel : Nat) : Option (Except String (Nat × Bool)) :=
  whileFuel (frameGetScanGuard l) (frameGetScanBody l) fuel (l.tail, false)

/-- The state of `frame_get`'s second loop: the queue, the pool, the locals, the turns made (the
next outcome of `net_pkt_get_frag` is `okFrag turns`) and the frames released. -/
structure FrameGetLoop where
  q : RxQueue
  p : RxPool
  fg : FrameGet
  turns : Nat
  released : List (List Frag)

/-- The second loop's state when it starts, `okFrame` being the outcome of
`net_pkt_get_reserve_rx`. -/
def frameGetInit (q : RxQueue) (p : RxPool) (okFrame : Bool) : FrameGetLoop :=
  ⟨q, p, { tail := q.rxDescList.tail, rxFrame := if okFrame then some [] else none, frameLen := 0,
           complete := false }, 0, []⟩

/-- One turn of the second loop past its assertion. -/
def FrameGetLoop.turn (dataSize : Nat) (okFrag : Nat → Bool) (s : FrameGetLoop) : FrameGetLoop :=
  ⟨(frameGetTurn dataSize (okFrag s.turns) s.q s.p s.fg).1,
    (frameGetTurn dataSize (okFrag s.turns) s.q s.p s.fg).2.1,
    (frameGetTurn dataSize (okFrag s.turns) s.q s.p s.fg).2.2.1, s.turns + 1,
    s.released ++ (frameGetTurn dataSize (okFrag s.turns) s.q s.p s.fg).2.2.2.toList⟩

/-- The body of the second loop: it asserts that the buffer `rx_frag_list` holds at the tail is
the one the descriptor points to, then handles the descriptor. -/
def frameGetBody (dataSize : Nat) (okFrag : Nat → Bool) (s : FrameGetLoop) :
    Except String FrameGetLoop :=
  if s.p.dataOf (s.q.rxFragList.buf s.fg.tail) = (s.q.rxDescList.buf s.fg.tail).w0 &&& gmacRxw0Addr
  then .ok (s.turn dataSize okFrag)
  else .error "RX descriptor and buffer list desynchronized"

theorem frameGetBody_ok {dataSize : Nat} {okFrag : Nat → Bool} {s s' : FrameGetLoop}
    (h : frameGetBody dataSize okFrag s = .ok s') : s' = s.turn dataSize okFrag := by
  unfold frameGetBody at h
  split at h <;> cases h
  rfl

/-- The second loop of `frame_get`. -/
def frameGetAssemble (dataSize : Nat) (okFrag : Nat → Bool) (fuel : Nat) (s : FrameGetLoop) :
    Option (Except String FrameGetLoop) :=
  whileFuel (fun s => s.fg.more s.q) (frameGetBody dataSize okFrag) fuel s

/-- `frame_get` with the DMA idle: the queue and pool it leaves, the frame it returns (`none` for
`NULL`) and the frames it releases; `okFrame` and `okFrag` are the outcomes of
`net_pkt_get_reserve_rx` and of `net_pkt_get_frag` at each turn. -/
def frameGet (dataSize : Nat) (okFrame : Bool) (okFrag : Nat → Bool) (fuel : Nat) (q : RxQueue)
    (p : RxPool) :
    Option (Except String (RxQueue × RxPool × Option (List Frag) × List (List Frag))) :=
  match frameGetScan q.rxDescList fuel with
  | none => none
  | some (.error e) => some (.error e)
  | some (.ok (_, complete)) =>
    if !complete then some (.ok (q, p, none, []))
    else if !flag (q.rxDescList.buf q.rxDescList.tail).w1 gmacRxw1Sof then
      some (.error "First RX fragment is missing SOF bit")
    else
      match frameGetAssemble dataSize okFrag fuel (frameGetInit q p okFrame) with
      | none => none
      | some (.error e) => some (.error e)
      | some (.ok s) =>
        if s.fg.complete then some (.ok (frameGetEnd s.q s.fg, s.p, s.fg.rxFrame, s.released))
        else some (.error "frame_is_complete")

/-! ## eth_rx -/

/-- What the stack answers during the `n`-th `frame_get` of an `eth_rx` call: whether
`net_pkt_get_reserve_rx` gives a frame, whether `net_pkt_get_frag` gives a buffer at each turn,
and whether `net_recv_data` takes the frame. -/
structure RxEnv where
  okFrame : Bool
  okFrag : Nat → Bool
  accepted : Bool

/-- `eth_rx` with the DMA idle: `frame_get` until it returns `NULL`, each frame handed to
`net_recv_data` and released when that fails. Its result: the queue and pool, the frames
`net_recv_data` took, and the frames released, in order. -/
def ethRx (dataSize : Nat) (env : Nat → RxEnv) :
    Nat → Nat → RxQueue → RxPool →
      Option (Except String (RxQueue × RxPool × List (List Frag) × List (List Frag)))
  | 0, _, _, _ => none
  | fuel + 1, n, q, p =>
    match frameGet dataSize (env n).okFrame (env n).okFrag (fuel + 1) q p with
    | none => none
    | some (.error e) => some (.error e)
    | some (.ok (q, p, none, rel)) => some (.ok (q, p, [], rel))
    | some (.ok (q, p, some fr, rel)) =>
      (ethRx dataSize env fuel (n + 1) q p).map fun r => r.map fun r =>
        (r.1, r.2.1, (if (env n).accepted then [fr] else []) ++ r.2.2.1,
          rel ++ (if (env n).accepted then [] else [fr]) ++ r.2.2.2)

/-! ## A frame at the tail -/

/-- The slot `m` places after the tail. -/
def RxQueue.slot (q : RxQueue) (m : Nat) : Nat := slotAfter q.rxDescList.len q.rxDescList.tail m

/-- `GMAC_RXW1_LEN` of the `k`-th descriptor from the tail: the length of a frame that ends
there. -/
def RxQueue.eofLen (q : RxQueue) (k : Nat) : BitVec 32 :=
  (q.rxDescList.buf (q.slot (k - 1))).w1 &&& gmacRxw1Len

/-- A frame of `k` buffers at the tail as the DMA leaves it: its descriptors are the driver's,
`SOF` is on the first and `EOF` on the last only, and each points at the buffer of its slot. -/
structure RxQueue.FrameAt (q : RxQueue) (p : RxPool) (k : Nat) : Prop where
  pos : 0 < k
  le : k ≤ q.rxDescList.len
  tail : q.rxDescList.tail < q.rxDescList.len
  own : ∀ j < k, flag (q.rxDescList.buf (q.slot j)).w0 gmacRxw0Ownership = true
  sof : flag (q.rxDescList.buf q.rxDescList.tail).w1 gmacRxw1Sof = true
  eof : ∀ j < k, flag (q.rxDescList.buf (q.slot j)).w1 gmacRxw1Eof = decide (j + 1 = k)
  addr : ∀ j < k,
    p.dataOf (q.rxFragList.buf (q.slot j)) = (q.rxDescList.buf (q.slot j)).w0 &&& gmacRxw0Addr

/-- The chain `frame_get` builds from a frame of `k` buffers at the tail: the buffers in ring
order, each with `CONFIG_NET_BUF_DATA_SIZE` bytes but the last, which has `last`. -/
def RxQueue.chain (q : RxQueue) (dataSize k : Nat) (last : BitVec 32) : List Frag :=
  (List.range k).map fun j =>
    (q.rxFragList.buf (q.slot j), if j + 1 = k then last else BitVec.ofNat 32 dataSize)

/-- The buffer in the `j`-th slot of a frame once `frame_get` has linked `n` of its buffers: a
fresh one from the pool for each linked buffer, the old one for the others. -/
def RxQueue.refill (q : RxQueue) (p : RxPool) (n j : Nat) : BufPtr :=
  if j < n then .buf (p.next + j) else q.rxFragList.buf (q.slot j)

theorem RxQueue.slot_ne {q : RxQueue} {j m : Nat} (hm : m < q.rxDescList.len) (hjm : j < m) :
    q.slot m ≠ q.slot j := fun h => by
  have := slotAfter_inj hm (by omega) h
  omega

theorem RxQueue.moduloInc_slot {q : RxQueue} (hR : 0 < q.rxDescList.len) (m : Nat) :
    moduloInc (q.slot m) q.rxDescList.len = q.slot (m + 1) :=
  moduloInc_slotAfter hR

theorem RxQueue.chain_take_succ (q : RxQueue) (dataSize k : Nat) (last : BitVec 32) {m : Nat}
    (hm : m < k) :
    (q.chain dataSize k last).take (m + 1) = (q.chain dataSize k last).take m ++
      [(q.rxFragList.buf (q.slot m), if m + 1 = k then last else BitVec.ofNat 32 dataSize)] := by
  simp [List.take_succ, RxQueue.chain, List.getElem?_range hm]

theorem RxQueue.length_chain (q : RxQueue) (dataSize k : Nat) (last : BitVec 32) :
    (q.chain dataSize k last).length = k := by
  simp [RxQueue.chain]

/-- The length of a fragment chain: the lengths `net_buf_add` gave its fragments, added up. -/
def chainLen : List Frag → Nat
  | [] => 0
  | f :: fr => f.2.toNat + chainLen fr

theorem RxQueue.chain_total (q : RxQueue) {dataSize k : Nat} (last : BitVec 32) (hk : 0 < k)
    (hds : (k - 1) * dataSize < 2 ^ 32) :
    chainLen (q.chain dataSize k last) = (k - 1) * dataSize + last.toNat := by
  have hsum (fr : List Frag) : chainLen fr = (fr.map fun f => f.2.toNat).sum := by
    induction fr with
    | nil => rfl
    | cons f fr ih => simp [chainLen, ih]
  rw [hsum]
  obtain ⟨k, rfl⟩ : ∃ k', k = k' + 1 := ⟨k - 1, by omega⟩
  have hlt : dataSize < 2 ^ 32 ∨ k = 0 := by
    rcases Nat.eq_zero_or_pos k with rfl | hk'
    · exact .inr rfl
    · exact .inl (lt_of_le_of_lt (Nat.le_mul_of_pos_left _ hk') (by simpa using hds))
  have hmap : ((List.range k).map fun j => (if j = k then last
      else BitVec.ofNat 32 dataSize).toNat) = List.replicate k (dataSize % 2 ^ 32) := by
    rw [List.map_congr_left (g := fun _ => dataSize % 2 ^ 32), List.map_const', List.length_range]
    intro j hj
    rw [if_neg (by simp at hj; omega), BitVec.toNat_ofNat]
  simpa [RxQueue.chain, List.range_succ, List.map_map, Function.comp_def, hmap] using hlt

theorem sub_ofNat_of_le {x : BitVec 32} {a : Nat} (h : a ≤ x.toNat) :
    x - BitVec.ofNat 32 a = BitVec.ofNat 32 (x.toNat - a) := by
  apply BitVec.eq_of_toNat_eq
  have := x.isLt
  rw [BitVec.toNat_sub, BitVec.toNat_ofNat, BitVec.toNat_ofNat,
    Nat.mod_eq_of_lt (by omega : a < 2 ^ 32)]
  omega

theorem toNat_sub_ofNat_of_lt {x : BitVec 32} {a : Nat} (h : x.toNat < a) (ha : a < 2 ^ 32) :
    (x - BitVec.ofNat 32 a).toNat = 2 ^ 32 + x.toNat - a := by
  rw [BitVec.toNat_sub, BitVec.toNat_ofNat, Nat.mod_eq_of_lt ha]
  omega

theorem RxQueue.refill_of_lt {q : RxQueue} {p : RxPool} {n j : Nat} (h : j < n) :
    q.refill p n j = .buf (p.next + j) := if_pos h

theorem RxQueue.refill_of_le {q : RxQueue} {p : RxPool} {n j : Nat} (h : n ≤ j) :
    q.refill p n j = q.rxFragList.buf (q.slot j) := if_neg (by omega)

@[simp] theorem RxPool.dataOf_next (p : RxPool) (n : Nat) (f : BufPtr) :
    ({ p with next := n } : RxPool).dataOf f = p.dataOf f := by
  cases f <;> rfl

@[simp] theorem rxGiveBack_next (p : RxPool) (n : Nat) :
    rxGiveBack { p with next := n } = rxGiveBack p := rfl

/-- The allocations of a `frame_get` over a frame of `k` buffers link exactly `n` of them:
`net_pkt_get_reserve_rx` succeeds and `net_pkt_get_frag` succeeds `n` times and then fails (or
`n = k`), or `net_pkt_get_reserve_rx` fails and `n = 0`. -/
def FrameGetLinks (okFrame : Bool) (okFrag : Nat → Bool) (k n : Nat) : Prop :=
  n ≤ k ∧ (okFrame = true ∧ (∀ i < n, okFrag i = true) ∧ (n < k → okFrag n = false) ∨
    okFrame = false ∧ n = 0)

/-! ## The second loop over a frame -/

/-- What the second loop of `frame_get` has done after `m` turns over a frame of `k` buffers at
the tail of `q`, of which it links `n`. -/
structure FrameGetAfter (dataSize : Nat) (okFrame : Bool) (q : RxQueue) (p : RxPool)
    (k n m : Nat) (s : FrameGetLoop) : Prop where
  len : s.q.rxDescList.len = q.rxDescList.len
  slots : ∀ j < m, s.q.rxFragList.buf (q.slot j) = q.refill p n j ∧
    s.q.rxDescList.buf (q.slot j) = rxGiveBack p q.rxDescList.len (q.slot j) (q.refill p n j)
  others : ∀ i, (∀ j < m, i ≠ q.slot j) →
    s.q.rxFragList.buf i = q.rxFragList.buf i ∧ s.q.rxDescList.buf i = q.rxDescList.buf i
  dropped : s.q.errRxFramesDropped = q.errRxFramesDropped + if okFrame ∧ n < m then 1 else 0
  pool : s.p = { p with next := p.next + min m n }
  fg : s.fg = { tail := q.slot m,
                rxFrame := if okFrame ∧ m ≤ n then
                  some ((q.chain dataSize k (q.eofLen k - BitVec.ofNat 32 ((k - 1) * dataSize))).take m)
                  else none,
                frameLen := if m = k then q.eofLen k else BitVec.ofNat 32 (m * dataSize),
                complete := decide (m = k) }
  turns : s.turns = m
  released : s.released = if okFrame ∧ n < m then
    [(q.chain dataSize k (q.eofLen k - BitVec.ofNat 32 ((k - 1) * dataSize))).take n] else []

section
variable {dataSize k n m : Nat} {okFrame : Bool} {okFrag : Nat → Bool} {q : RxQueue}
  {p : RxPool} {s : FrameGetLoop}

theorem FrameGetAfter.init (hf : q.FrameAt p k) :
    FrameGetAfter dataSize okFrame q p k n 0 (frameGetInit q p okFrame) := by
  refine ⟨rfl, fun j hj => absurd hj (Nat.not_lt_zero j), fun i _ => ⟨rfl, rfl⟩,
    by simp [frameGetInit], ?_, ?_, rfl, by simp [frameGetInit]⟩
  · cases p; simp [frameGetInit]
  · simp [frameGetInit, RxQueue.slot, slotAfter_zero hf.tail, hf.pos.ne]

theorem FrameGetAfter.current (hf : q.FrameAt p k) (h : FrameGetAfter dataSize okFrame q p k n m s)
    (hm : m < k) :
    s.q.rxFragList.buf (q.slot m) = q.rxFragList.buf (q.slot m) ∧
      s.q.rxDescList.buf (q.slot m) = q.rxDescList.buf (q.slot m) :=
  h.others _ fun _ hj => RxQueue.slot_ne (by have := hf.le; omega) hj

theorem FrameGetAfter.fragLenAt (hf : q.FrameAt p k) (h : FrameGetAfter dataSize okFrame q p k n m s)
    (hm : m < k) :
    fragLenAt dataSize s.q s.fg = if m + 1 = k then q.eofLen k - BitVec.ofNat 32 ((k - 1) * dataSize)
      else BitVec.ofNat 32 dataSize := by
  simp only [SamGmac.Rx.fragLenAt, h.fg, (h.current hf hm).2, hf.eof m hm]
  by_cases hk : m + 1 = k
  · subst hk; simp [RxQueue.eofLen]
  · simp [hk]

theorem FrameGetAfter.next (hf : q.FrameAt p k) (h : FrameGetAfter dataSize okFrame q p k n m s)
    (hm : m < k) (fr : Option (List Frag)) :
    s.fg.next dataSize s.q fr =
      { tail := q.slot (m + 1), rxFrame := fr,
        frameLen := if m + 1 = k then q.eofLen k else BitVec.ofNat 32 ((m + 1) * dataSize),
        complete := decide (m + 1 = k) } := by
  have hR : 0 < q.rxDescList.len := by have := hf.le; omega
  simp only [FrameGet.next, h.fragLenAt hf hm]
  rw [h.fg]
  simp only [h.len, (h.current hf hm).2, hf.eof m hm, RxQueue.moduloInc_slot hR, FrameGet.mk.injEq,
    true_and]
  by_cases hk : m + 1 = k
  · subst hk; simp [add_sub_cancel]
  · rw [if_neg (by omega : m ≠ k)]
    simp [hk, BitVec.ofNat_add_ofNat, Nat.succ_mul]

theorem FrameGetAfter.slots_succ (hf : q.FrameAt p k)
    (h : FrameGetAfter dataSize okFrame q p k n m s) (hm : m < k) (q' : RxQueue)
    (hfrag : ∀ i, q'.rxFragList.buf i =
      if i = q.slot m then q.refill p n m else s.q.rxFragList.buf i)
    (hdesc : ∀ i, q'.rxDescList.buf i = if i = q.slot m then
      rxGiveBack p q.rxDescList.len (q.slot m) (q.refill p n m) else s.q.rxDescList.buf i) :
    (∀ j < m + 1, q'.rxFragList.buf (q.slot j) = q.refill p n j ∧
      q'.rxDescList.buf (q.slot j) = rxGiveBack p q.rxDescList.len (q.slot j) (q.refill p n j)) ∧
    (∀ i, (∀ j < m + 1, i ≠ q.slot j) →
      q'.rxFragList.buf i = q.rxFragList.buf i ∧ q'.rxDescList.buf i = q.rxDescList.buf i) := by
  have hR : m < q.rxDescList.len := by have := hf.le; omega
  refine ⟨fun j hj => ?_, fun i hi => ?_⟩
  · rw [hfrag, hdesc]
    rcases Nat.lt_succ_iff_lt_or_eq.mp hj with hj | rfl
    · rw [if_neg (RxQueue.slot_ne hR hj).symm, if_neg (RxQueue.slot_ne hR hj).symm]
      exact h.slots j hj
    · simp
  · rw [hfrag, hdesc, if_neg (hi m (by omega)), if_neg (hi m (by omega))]
    exact h.others i fun j hj => hi j (by omega)

theorem FrameGetLinks.of_okFrame (hl : FrameGetLinks okFrame okFrag k n) (h : okFrame = true) :
    (∀ i < n, okFrag i = true) ∧ (n < k → okFrag n = false) := by
  rcases hl.2 with ⟨-, h'⟩ | ⟨h', -⟩
  · exact h'
  · simp [h] at h'

theorem FrameGetAfter.step (hf : q.FrameAt p k) (hl : FrameGetLinks okFrame okFrag k n)
    (h : FrameGetAfter dataSize okFrame q p k n m s) (hm : m < k) :
    s.fg.more s.q = true ∧ frameGetBody dataSize okFrag s = .ok (s.turn dataSize okFrag) ∧
      FrameGetAfter dataSize okFrame q p k n (m + 1) (s.turn dataSize okFrag) := by
  obtain ⟨hfrag, hdesc⟩ := h.current hf hm
  have htail : s.fg.tail = q.slot m := by rw [h.fg]
  refine ⟨?_, ?_, ?_⟩
  · rw [FrameGet.more, htail, hdesc, hf.own m hm, h.fg]; simp [hm.ne]
  · rw [frameGetBody, htail, hfrag, hdesc, h.pool, RxPool.dataOf_next, if_pos (hf.addr m hm)]
  simp only [FrameGetLoop.turn, h.turns]
  by_cases hal : okFrame = true ∧ m ≤ n
  · have hfr : s.fg.rxFrame = some ((q.chain dataSize k
        (q.eofLen k - BitVec.ofNat 32 ((k - 1) * dataSize))).take m) := by
      rw [h.fg]; simp [hal]
    rcases Nat.lt_or_eq_of_le hal.2 with hmn | rfl
    · -- `net_pkt_get_frag` succeeds: `m < n`, and the buffer is linked
      have hnext : s.p.next = p.next + m := by rw [h.pool]; simp [Nat.min_eq_left hmn.le]
      have h₁ : ¬n < m := by omega
      have h₂ : ¬n < m + 1 := by omega
      rw [(hl.of_okFrame hal.1).1 m hmn, frameGetTurn_link hfr]
      obtain ⟨hs, ho⟩ := h.slots_succ hf hm ((s.q.setFrag s.fg.tail (.buf s.p.next)).setDesc
          s.fg.tail (rxGiveBack { s.p with next := s.p.next + 1 } s.q.rxDescList.len s.fg.tail
            (.buf s.p.next)))
        (fun i => by simp [RxQueue.setFrag_buf, htail, hnext, RxQueue.refill_of_lt hmn])
        (fun i => by
          simp [RxQueue.setDesc_buf, htail, h.len, h.pool, Nat.min_eq_left hmn.le,
            RxQueue.refill_of_lt hmn])
      refine ⟨by simp [RxQueue.setDesc, RxQueue.setFrag, h.len], hs, ho, ?_, ?_, ?_, rfl, ?_⟩
      · simp [RxQueue.setDesc, RxQueue.setFrag, h.dropped, h₁, h₂]
      · rw [h.pool]; simp; omega
      · dsimp only
        rw [h.next hf hm, h.fragLenAt hf hm, htail, hfrag, ← RxQueue.chain_take_succ _ _ _ _ hm,
          if_pos (show okFrame = true ∧ m + 1 ≤ n from ⟨hal.1, hmn⟩)]
      · simp [h.released, h₁, h₂]
    · -- `net_pkt_get_frag` fails: `m = n`, and the frame is dropped
      rw [(hl.of_okFrame hal.1).2 hm, frameGetTurn_drop hfr]
      obtain ⟨hs, ho⟩ := h.slots_succ hf hm ({ s.q with
          errRxFramesDropped := s.q.errRxFramesDropped + 1 }.setDesc s.fg.tail
          (rxGiveBack s.p s.q.rxDescList.len s.fg.tail (s.q.rxFragList.buf s.fg.tail)))
        (fun i => by split <;> simp_all [RxQueue.setDesc, RxQueue.refill_of_le])
        (fun i => by simp [RxQueue.setDesc_buf, htail, hfrag, h.len, h.pool, RxQueue.refill_of_le])
      refine ⟨by simp [RxQueue.setDesc, h.len], hs, ho, ?_, ?_, ?_, rfl, ?_⟩
      · simp [RxQueue.setDesc, h.dropped, hal.1]
      · simp [h.pool]
      · dsimp only
        rw [h.next hf hm none,
          if_neg (show ¬(okFrame = true ∧ m + 1 ≤ m) from fun h => absurd h.2 (by omega))]
      · simp [h.released, hfr, hal]
  · have hfr : s.fg.rxFrame = none := by rw [h.fg]; simp [hal]
    have hnm : n ≤ m := by
      rcases hl.2 with ⟨hfr', -⟩ | ⟨-, rfl⟩
      · simp [hfr'] at hal; omega
      · omega
    have hiff : (okFrame = true ∧ n < m) ↔ (okFrame = true ∧ n < m + 1) :=
      ⟨fun h => ⟨h.1, by omega⟩, fun h => ⟨h.1, by by_contra; exact hal ⟨h.1, by omega⟩⟩⟩
    rw [frameGetTurn_of_none _ hfr]
    obtain ⟨hs, ho⟩ := h.slots_succ hf hm (s.q.setDesc s.fg.tail
        (rxGiveBack s.p s.q.rxDescList.len s.fg.tail (s.q.rxFragList.buf s.fg.tail)))
      (fun i => by split <;> simp_all [RxQueue.refill_of_le])
      (fun i => by simp [RxQueue.setDesc_buf, htail, hfrag, h.len, h.pool, RxQueue.refill_of_le hnm])
    refine ⟨by simp [h.len], hs, ho, ?_, ?_, ?_, rfl, ?_⟩
    · simp [RxQueue.setDesc, h.dropped, hiff]
    · rw [h.pool, Nat.min_eq_right hnm, Nat.min_eq_right (by omega)]
    · dsimp only
      rw [h.next hf hm none,
        if_neg (show ¬(okFrame = true ∧ m + 1 ≤ n) from fun h' => hal ⟨h'.1, by omega⟩)]
    · simp [h.released, hiff]

theorem FrameGetAfter.iterate (dataSize : Nat) (hf : q.FrameAt p k)
    (hl : FrameGetLinks okFrame okFrag k n) :
    ∀ m ≤ k, FrameGetAfter dataSize okFrame q p k n m
      ((FrameGetLoop.turn dataSize okFrag)^[m] (frameGetInit q p okFrame))
  | 0, _ => FrameGetAfter.init hf
  | m + 1, hm => by
    rw [Function.iterate_succ_apply']
    exact ((FrameGetAfter.iterate dataSize hf hl m (by omega)).step hf hl (by omega)).2.2

theorem frameGetScan_frameAt (hf : q.FrameAt p k) (fuel : Nat) (hk : k ≤ fuel) :
    frameGetScan q.rxDescList fuel = some (.ok (q.slot k, true)) := by
  have hR : 0 < q.rxDescList.len := by have := hf.le; have := hf.pos; omega
  have h0 : (q.slot 0, decide (0 = k)) = (q.rxDescList.tail, false) := by
    simp [RxQueue.slot, slotAfter_zero hf.tail, hf.pos.ne]
  have := @whileFuel_run _ String (frameGetScanGuard q.rxDescList) (frameGetScanBody q.rxDescList)
    (fun m => (q.slot m, decide (m = k))) k
    (fun m hm => ⟨by simp [frameGetScanGuard, hf.own m hm, hm.ne],
      by simp [frameGetScanBody, hf.eof m hm, RxQueue.moduloInc_slot hR]⟩)
    (by simp [frameGetScanGuard]) fuel hk
  simpa only [h0, decide_True] using this

theorem frameGetAssemble_frameAt (hf : q.FrameAt p k) (hl : FrameGetLinks okFrame okFrag k n)
    (fuel : Nat) (hk : k ≤ fuel) :
    frameGetAssemble dataSize okFrag fuel (frameGetInit q p okFrame) =
      some (.ok ((FrameGetLoop.turn dataSize okFrag)^[k] (frameGetInit q p okFrame))) :=
  whileFuel_run (fun m => (FrameGetLoop.turn dataSize okFrag)^[m] (frameGetInit q p okFrame)) k
    (fun m hm => by
      obtain ⟨hc, hb, -⟩ :=
        (FrameGetAfter.iterate dataSize hf hl m hm.le).step hf hl hm
      dsimp only
      rw [Function.iterate_succ_apply']
      exact ⟨hc, hb⟩)
    (by simp [FrameGet.more, (FrameGetAfter.iterate dataSize hf hl k le_rfl).fg])
    fuel hk

/-- `frame_get` over a frame of `k` buffers at the tail, with enough fuel: no assertion fails, and
it returns where its second loop is after `k` turns. -/
theorem frameGet_frameAt (dataSize : Nat) (hf : q.FrameAt p k)
    (hl : FrameGetLinks okFrame okFrag k n) :
    ∃ s, FrameGetAfter dataSize okFrame q p k n k s ∧ ∀ fuel, k ≤ fuel →
      frameGet dataSize okFrame okFrag fuel q p =
        some (.ok (frameGetEnd s.q s.fg, s.p, s.fg.rxFrame, s.released)) := by
  have hk := FrameGetAfter.iterate dataSize hf hl k le_rfl
  refine ⟨_, hk, fun fuel hfuel => ?_⟩
  simp only [frameGet, frameGetScan_frameAt hf fuel hfuel, hf.sof,
    frameGetAssemble_frameAt hf hl fuel hfuel, hk.fg]
  simp

end

/-! ## What frame_get does with a frame -/

/-- `frame_get` over a frame of `k` buffers at the tail whose `LEN` they can hold, with `n` of them
linked: it returns their chain, or `NULL` after releasing what it linked, moves the tail past the
frame, and gives each descriptor back for the buffer its slot now holds. -/
theorem frame_get_takes_frame {dataSize k n : Nat} {okFrame : Bool} {okFrag : Nat → Bool}
    {q : RxQueue} {p : RxPool} (hf : q.FrameAt p k) (hl : FrameGetLinks okFrame okFrag k n)
    (hlen : (k - 1) * dataSize < (q.eofLen k).toNat ∧ (q.eofLen k).toNat ≤ k * dataSize) :
    ∃ q', (∀ fuel, k ≤ fuel → frameGet dataSize okFrame okFrag fuel q p =
        some (.ok (q', { p with next := p.next + n },
          if okFrame = true ∧ n = k then
            some (q.chain dataSize k (BitVec.ofNat 32 ((q.eofLen k).toNat - (k - 1) * dataSize)))
          else none,
          if okFrame = true ∧ n < k then
            [(q.chain dataSize k
              (BitVec.ofNat 32 ((q.eofLen k).toNat - (k - 1) * dataSize))).take n]
          else []))) ∧
      q'.rxDescList.tail = q.slot k ∧
      q'.errRxFramesDropped = q.errRxFramesDropped + (if okFrame = true ∧ n < k then 1 else 0) ∧
      (∀ j < k, q'.rxFragList.buf (q.slot j) = q.refill p n j ∧
        (q'.rxDescList.buf (q.slot j)).w0 &&& gmacRxw0Addr = p.dataOf (q.refill p n j) &&& gmacRxw0Addr ∧
        (q'.rxDescList.buf (q.slot j)).w1 = 0 ∧
        flag (q'.rxDescList.buf (q.slot j)).w0 gmacRxw0Ownership = false ∧
        flag (q'.rxDescList.buf (q.slot j)).w0 gmacRxw0Wrap = decide (q.slot j = q.rxDescList.len - 1)) ∧
      (∀ i, (∀ j < k, i ≠ q.slot j) →
        q'.rxFragList.buf i = q.rxFragList.buf i ∧ q'.rxDescList.buf i = q.rxDescList.buf i) ∧
      chainLen (q.chain dataSize k (BitVec.ofNat 32 ((q.eofLen k).toNat - (k - 1) * dataSize))) =
        (q.eofLen k).toNat := by
  obtain ⟨s, hs, hget⟩ := frameGet_frameAt dataSize hf hl
  have hLEN := (q.eofLen k).isLt
  have hiff : (okFrame = true ∧ k ≤ n) ↔ (okFrame = true ∧ n = k) :=
    ⟨fun h => ⟨h.1, by have := hl.1; omega⟩, fun h => ⟨h.1, by omega⟩⟩
  refine ⟨frameGetEnd s.q s.fg, fun fuel hfuel => ?_, by simp [frameGetEnd, hs.fg],
    by simp [frameGetEnd, hs.dropped], fun j hj => ?_, hs.others, ?_⟩
  · rw [hget fuel hfuel, hs.pool, hs.fg, hs.released, Nat.min_eq_right hl.1,
      sub_ofNat_of_le hlen.1.le]
    simp only [hiff, List.take_of_length_le (RxQueue.length_chain _ _ _ _).le]
  · obtain ⟨hfrag, hdesc⟩ := hs.slots j hj
    simp only [frameGetEnd, hdesc]
    exact ⟨hfrag, rxGiveBack_addr _ _ _ _, rfl, rxGiveBack_ownership _ _ _ _, rxGiveBack_wrap _ _ _ _⟩
  · rw [RxQueue.chain_total _ _ hf.pos (by omega), BitVec.toNat_ofNat,
      Nat.mod_eq_of_lt (by omega)]
    omega

/-- A frame of 168 bytes in slots 2, 3 and 0 of a ring of four, every allocation served. -/
theorem frame_get_takes_frame_wrapped :
    ∃ (q : RxQueue) (p : RxPool), q.rxDescList.len = 4 ∧ q.rxDescList.tail = 2 ∧
      (q.eofLen 3).toNat = 168 ∧ q.FrameAt p 3 ∧ FrameGetLinks true (fun _ => true) 3 3 ∧
      ((3 - 1) * 64 < (q.eofLen 3).toNat ∧ (q.eofLen 3).toNat ≤ 3 * 64) ∧
      ∃ q', (∀ fuel, 3 ≤ fuel → frameGet 64 true (fun _ => true) fuel q p =
          some (.ok (q', { p with next := p.next + 3 },
            if true = true ∧ 3 = 3 then
              some (q.chain 64 3 (BitVec.ofNat 32 ((q.eofLen 3).toNat - (3 - 1) * 64)))
            else none,
            if true = true ∧ 3 < 3 then
              [(q.chain 64 3 (BitVec.ofNat 32 ((q.eofLen 3).toNat - (3 - 1) * 64))).take 3]
            else []))) ∧
        q'.rxDescList.tail = q.slot 3 ∧
        q'.errRxFramesDropped = q.errRxFramesDropped + (if true = true ∧ 3 < 3 then 1 else 0) ∧
        (∀ j < 3, q'.rxFragList.buf (q.slot j) = q.refill p 3 j ∧
          (q'.rxDescList.buf (q.slot j)).w0 &&& gmacRxw0Addr = p.dataOf (q.refill p 3 j) &&& gmacRxw0Addr ∧
          (q'.rxDescList.buf (q.slot j)).w1 = 0 ∧
          flag (q'.rxDescList.buf (q.slot j)).w0 gmacRxw0Ownership = false ∧
          flag (q'.rxDescList.buf (q.slot j)).w0 gmacRxw0Wrap = decide (q.slot j = q.rxDescList.len - 1)) ∧
        (∀ i, (∀ j < 3, i ≠ q.slot j) →
          q'.rxFragList.buf i = q.rxFragList.buf i ∧ q'.rxDescList.buf i = q.rxDescList.buf i) ∧
        chainLen (q.chain 64 3 (BitVec.ofNat 32 ((q.eofLen 3).toNat - (3 - 1) * 64))) =
          (q.eofLen 3).toNat := by
  let q : RxQueue :=
    ⟨⟨fun i => if i = 2 then ⟨0x20000201, 0x4000⟩ else if i = 3 then ⟨0x20000303, 0⟩
        else if i = 0 then ⟨0x20000001, 0x80A8⟩ else ⟨0x20000100, 0⟩, 4, 0, 2⟩,
      ⟨fun i => .buf i, 4, 0, 2⟩, 0, 0⟩
  let p : RxPool := ⟨4, fun b => BitVec.ofNat 32 (0x20000000 + 0x100 * b)⟩
  have hf : q.FrameAt p 3 := ⟨by decide, by decide, by decide, by decide, by decide, by decide,
    by decide⟩
  have hl : FrameGetLinks true (fun _ => true) 3 3 := ⟨le_rfl, .inl ⟨rfl, fun _ _ => rfl, by omega⟩⟩
  have hlen : (3 - 1) * 64 < (q.eofLen 3).toNat ∧ (q.eofLen 3).toNat ≤ 3 * 64 := by decide
  exact ⟨q, p, rfl, rfl, by decide, hf, hl, hlen, frame_get_takes_frame hf hl hlen⟩

/-- With every allocation served, a frame of `k` buffers whose `LEN` is below `(k - 1)·DS` is
returned, and its last `net_buf_add` gets `2^32 + LEN - (k - 1)·DS` bytes. -/
theorem frame_get_last_length_wraps {dataSize k : Nat} {okFrag : Nat → Bool} {q : RxQueue}
    {p : RxPool} (hf : q.FrameAt p k) (hok : ∀ i < k, okFrag i = true)
    (hlen : (q.eofLen k).toNat < (k - 1) * dataSize) (hds : k * dataSize < 2 ^ 32) :
    ∃ q' last, (∀ fuel, k ≤ fuel → frameGet dataSize true okFrag fuel q p =
        some (.ok (q', { p with next := p.next + k }, some (q.chain dataSize k last), []))) ∧
      last.toNat = 2 ^ 32 + (q.eofLen k).toNat - (k - 1) * dataSize ∧ dataSize < last.toNat := by
  obtain ⟨s, hs, hget⟩ := frameGet_frameAt dataSize hf
    (show FrameGetLinks true okFrag k k from ⟨le_rfl, .inl ⟨rfl, hok, fun h => absurd h (by omega)⟩⟩)
  have hsum : (k - 1) * dataSize + dataSize = k * dataSize := by
    rw [← Nat.succ_mul, Nat.succ_eq_add_one, Nat.sub_add_cancel hf.pos]
  have hlast := toNat_sub_ofNat_of_lt hlen (by omega)
  refine ⟨frameGetEnd s.q s.fg, _, fun fuel hfuel => ?_, hlast, by omega⟩
  rw [hget fuel hfuel, hs.pool, hs.fg, hs.released, Nat.min_self]
  simp [List.take_of_length_le (RxQueue.length_chain _ _ _ _).le]

/-- Two owned descriptors at the tail, the second with `EOF` and `LEN = 30`, and `DS = 128`: the
second buffer gets `0xFFFFFF9E` bytes. -/
theorem frame_get_last_length_wraps_at_30 :
    ∃ (q : RxQueue) (p : RxPool), (q.eofLen 2).toNat = 30 ∧ q.FrameAt p 2 ∧
      (∀ i < 2, (fun _ => true : Nat → Bool) i = true) ∧ (q.eofLen 2).toNat < (2 - 1) * 128 ∧
      2 * 128 < 2 ^ 32 ∧
      ∃ q' last, (∀ fuel, 2 ≤ fuel → frameGet 128 true (fun _ => true) fuel q p =
          some (.ok (q', { p with next := p.next + 2 }, some (q.chain 128 2 last), []))) ∧
        last.toNat = 2 ^ 32 + (q.eofLen 2).toNat - (2 - 1) * 128 ∧ 128 < last.toNat := by
  let q : RxQueue :=
    ⟨⟨fun i => if i = 0 then ⟨0x20000001, 0x4000⟩ else if i = 1 then ⟨0x20000101, 0x801E⟩
        else ⟨0x20000200, 0⟩, 4, 0, 0⟩, ⟨fun i => .buf i, 4, 0, 0⟩, 0, 0⟩
  let p : RxPool := ⟨4, fun b => BitVec.ofNat 32 (0x20000000 + 0x100 * b)⟩
  have hf : q.FrameAt p 2 := ⟨by decide, by decide, by decide, by decide, by decide, by decide,
    by decide⟩
  have hlen : (q.eofLen 2).toNat < (2 - 1) * 128 := by decide
  exact ⟨q, p, by decide, hf, fun _ _ => rfl, hlen, by decide,
    frame_get_last_length_wraps hf (fun _ _ => rfl) hlen (by decide)⟩


/-! ## How long frame_get runs -/

/-- The descriptors of the ring the driver owns. -/
def ownedCount (l : GmacDescList) : Nat :=
  (List.range l.len).countP fun i => flag (l.buf i).w0 gmacRxw0Ownership

theorem countP_range_setAt_lt {α : Type} {P : α → Bool} {g : Nat → α} {t n : Nat} {v : α}
    (ht : t < n) (hg : P (g t) = true) (hv : P v = false) :
    (List.range n).countP (fun i => P (setAt g t v i)) < (List.range n).countP fun i => P (g i) := by
  induction n with
  | zero => omega
  | succ n ih =>
    simp only [List.range_succ, List.countP_append, List.countP_singleton]
    rcases Nat.lt_succ_iff_lt_or_eq.mp ht with ht | rfl
    · rw [setAt_ne _ _ (by omega : n ≠ t)]
      have := ih ht
      omega
    · rw [List.countP_congr (q := fun i => P (g i))
        fun i hi => by rw [setAt_ne _ _ (by simp at hi; omega)], setAt_same, hv, hg]
      simp

theorem frameGetTurn_gives_back (dataSize : Nat) (okFrag : Bool) (q : RxQueue) (p : RxPool)
    (fg : FrameGet) :
    ∃ d, flag d.w0 gmacRxw0Ownership = false ∧
      (frameGetTurn dataSize okFrag q p fg).1.rxDescList =
        { q.rxDescList with buf := setAt q.rxDescList.buf fg.tail d } ∧
      (frameGetTurn dataSize okFrag q p fg).2.2.1.tail = moduloInc fg.tail q.rxDescList.len := by
  cases h : fg.rxFrame with
  | none => rw [frameGetTurn_of_none _ h]; exact ⟨_, rxGiveBack_ownership _ _ _ _, rfl, rfl⟩
  | some fr =>
    cases okFrag
    · rw [frameGetTurn_drop h]; exact ⟨_, rxGiveBack_ownership _ _ _ _, rfl, rfl⟩
    · rw [frameGetTurn_link h]; exact ⟨_, rxGiveBack_ownership _ _ _ _, rfl, rfl⟩

theorem frameGetAssemble_ne_none (dataSize : Nat) (okFrag : Nat → Bool) {s : FrameGetLoop}
    (ht : s.fg.tail < s.q.rxDescList.len) :
    frameGetAssemble dataSize okFrag s.q.rxDescList.len s ≠ none := by
  refine whileFuel_ne_none (fun s' => s'.q.rxDescList.len = s.q.rxDescList.len ∧
      s'.fg.tail < s.q.rxDescList.len) (fun s => ownedCount s.q.rxDescList) ?_ _ _ ⟨rfl, ht⟩
    ((List.countP_le_length _).trans (by simp))
  rintro s' ⟨hl, ht'⟩ hc
  have hown : flag (s'.q.rxDescList.buf s'.fg.tail).w0 gmacRxw0Ownership = true := by
    simp only [FrameGet.more, Bool.and_eq_true] at hc
    exact hc.1
  refine ⟨List.countP_pos_iff.mpr ⟨_, List.mem_range.mpr (hl ▸ ht'), hown⟩, fun s'' hb => ?_⟩
  obtain rfl := frameGetBody_ok hb
  obtain ⟨d, hd, hdl, htl⟩ := frameGetTurn_gives_back dataSize (okFrag s'.turns) s'.q s'.p s'.fg
  simp only [FrameGetLoop.turn, hdl, htl, ownedCount]
  have ht'' : s'.fg.tail < s'.q.rxDescList.len := by omega
  refine ⟨⟨hl, by rw [← hl]; exact moduloInc_lt (by omega)⟩, ?_⟩
  exact countP_range_setAt_lt (P := fun d : GmacDesc => flag d.w0 gmacRxw0Ownership) ht'' hown hd

theorem frameGetScan_diverges {l : GmacDescList} (hR : 0 < l.len) (ht : l.tail < l.len)
    (hall : ∀ i < l.len, flag (l.buf i).w0 gmacRxw0Ownership = true ∧
      flag (l.buf i).w1 gmacRxw1Eof = false) (fuel : Nat) :
    frameGetScan l fuel = none :=
  whileFuel_diverges (fun s => s.1 < l.len ∧ s.2 = false)
    (fun s ⟨hs, hc⟩ => ⟨by simp [frameGetScanGuard, (hall _ hs).1, hc], _, rfl, moduloInc_lt hR,
      (hall _ hs).2⟩) fuel _ ⟨ht, rfl⟩

theorem frameGetScan_none {l : GmacDescList} (hR : 0 < l.len) :
    ∀ m t, t < l.len → whileFuel (frameGetScanGuard l) (frameGetScanBody l) m (t, false) = none →
      ∀ i < m, flag (l.buf (slotAfter l.len t i)).w0 gmacRxw0Ownership = true ∧
        flag (l.buf (slotAfter l.len t i)).w1 gmacRxw1Eof = false
  | 0, _, _, _, i, hi => absurd hi (Nat.not_lt_zero i)
  | m + 1, t, ht, h, i, hi => by
    have hown : flag (l.buf t).w0 gmacRxw0Ownership = true := by
      by_contra hc
      simp [whileFuel, frameGetScanGuard, hc] at h
    have heof : flag (l.buf t).w1 gmacRxw1Eof = false := by
      by_contra hc
      simp [whileFuel, frameGetScanGuard, frameGetScanBody, hown, hc, whileFuel_of_not] at h
    simp only [whileFuel, frameGetScanGuard, frameGetScanBody, hown, heof, Bool.not_false,
      Bool.and_self, if_true] at h
    have ih := frameGetScan_none hR m _ (moduloInc_lt hR) h
    rcases i with _ | i
    · rw [slotAfter_zero ht]; exact ⟨hown, heof⟩
    · simpa [slotAfter_moduloInc ht] using ih i (by omega)

theorem frameGetScan_len_none {l : GmacDescList} (hR : 0 < l.len) (ht : l.tail < l.len)
    (h : frameGetScan l l.len = none) :
    ∀ i < l.len, flag (l.buf i).w0 gmacRxw0Ownership = true ∧
      flag (l.buf i).w1 gmacRxw1Eof = false :=
  fun i hi => slotAfter_back hi ht ▸
    frameGetScan_none hR _ _ ht h ((i + l.len - l.tail) % l.len) (Nat.mod_lt _ hR)

theorem frameGet_eq_none {dataSize : Nat} {okFrame : Bool} {okFrag : Nat → Bool} {fuel : Nat}
    {q : RxQueue} {p : RxPool} (h : frameGet dataSize okFrame okFrag fuel q p = none) :
    frameGetScan q.rxDescList fuel = none ∨
      frameGetAssemble dataSize okFrag fuel (frameGetInit q p okFrame) = none := by
  unfold frameGet at h
  split at h
  · exact .inl ‹_›
  · cases h
  · split_ifs at h
    split at h
    · exact .inr ‹_›
    · cases h
    · split_ifs at h

/-- The second loop stops within `R` turns from any state; the first returns within `R` turns unless
all `R` descriptors are the driver's without `EOF`, and then goes round for ever. -/
theorem frame_get_spins_on_full_ring {dataSize : Nat} {okFrame : Bool} {okFrag : Nat → Bool}
    {q : RxQueue} {p : RxPool} (hR : 0 < q.rxDescList.len)
    (ht : q.rxDescList.tail < q.rxDescList.len) :
    (∀ s : FrameGetLoop, s.q.rxDescList.len = q.rxDescList.len → s.fg.tail < q.rxDescList.len →
      frameGetAssemble dataSize okFrag q.rxDescList.len s ≠ none) ∧
    (frameGet dataSize okFrame okFrag q.rxDescList.len q p = none ↔
      ∀ i < q.rxDescList.len, flag (q.rxDescList.buf i).w0 gmacRxw0Ownership = true ∧
        flag (q.rxDescList.buf i).w1 gmacRxw1Eof = false) ∧
    ((∀ i < q.rxDescList.len, flag (q.rxDescList.buf i).w0 gmacRxw0Ownership = true ∧
        flag (q.rxDescList.buf i).w1 gmacRxw1Eof = false) →
      ∀ fuel, frameGet dataSize okFrame okFrag fuel q p = none) := by
  have hdiv : (∀ i < q.rxDescList.len, flag (q.rxDescList.buf i).w0 gmacRxw0Ownership = true ∧
      flag (q.rxDescList.buf i).w1 gmacRxw1Eof = false) →
      ∀ fuel, frameGet dataSize okFrame okFrag fuel q p = none :=
    fun hall fuel => by simp [frameGet, frameGetScan_diverges hR ht hall fuel]
  refine ⟨fun s hl ht' => hl ▸ frameGetAssemble_ne_none dataSize okFrag (hl ▸ ht'),
    ⟨fun h => ?_, fun hall => hdiv hall _⟩, hdiv⟩
  have hscan : frameGetScan q.rxDescList q.rxDescList.len = none :=
    (frameGet_eq_none h).resolve_right
      (frameGetAssemble_ne_none dataSize okFrag (s := frameGetInit q p okFrame) ht)
  exact frameGetScan_len_none hR ht hscan

/-- A ring of three descriptors, all the driver's and none with `EOF`. -/
theorem frame_get_spins_on_full_ring_three :
    ∃ (q : RxQueue) (p : RxPool), q.rxDescList.len = 3 ∧
      (∀ i < 3, flag (q.rxDescList.buf i).w0 gmacRxw0Ownership = true ∧
        flag (q.rxDescList.buf i).w1 gmacRxw1Eof = false) ∧
      0 < q.rxDescList.len ∧ q.rxDescList.tail < q.rxDescList.len ∧
      (∀ s : FrameGetLoop, s.q.rxDescList.len = q.rxDescList.len → s.fg.tail < q.rxDescList.len →
        frameGetAssemble 64 (fun _ => true) q.rxDescList.len s ≠ none) ∧
      (frameGet 64 true (fun _ => true) q.rxDescList.len q p = none ↔
        ∀ i < q.rxDescList.len, flag (q.rxDescList.buf i).w0 gmacRxw0Ownership = true ∧
          flag (q.rxDescList.buf i).w1 gmacRxw1Eof = false) ∧
      ((∀ i < q.rxDescList.len, flag (q.rxDescList.buf i).w0 gmacRxw0Ownership = true ∧
          flag (q.rxDescList.buf i).w1 gmacRxw1Eof = false) →
        ∀ fuel, frameGet 64 true (fun _ => true) fuel q p = none) := by
  let q : RxQueue := ⟨⟨fun i => ⟨BitVec.ofNat 32 (0x20000001 + 0x100 * i), 0⟩, 3, 0, 0⟩,
    ⟨fun i => .buf i, 3, 0, 0⟩, 0, 0⟩
  exact ⟨q, ⟨3, fun b => BitVec.ofNat 32 (0x20000000 + 0x100 * b)⟩, rfl, by decide, by decide,
    by decide, frame_get_spins_on_full_ring (by decide) (by decide)⟩

/-! ## The scan of the system model -/

theorem rxFrameScan_iff_whileFuel (l : GmacDescList) (fuel t : Nat) :
    rxFrameScan l fuel t = true ↔ ∃ t',
      whileFuel (frameGetScanGuard l) (frameGetScanBody l) fuel (t, false) = some (.ok (t', true)) := by
  induction fuel generalizing t with
  | zero =>
    cases h : flag (l.buf t).w0 gmacRxw0Ownership <;>
      simp [rxFrameScan, whileFuel, frameGetScanGuard, h]
  | succ fuel ih =>
    cases hown : flag (l.buf t).w0 gmacRxw0Ownership
    · simp [rxFrameScan, whileFuel, frameGetScanGuard, hown]
    · cases heof : flag (l.buf t).w1 gmacRxw1Eof
      · simpa [rxFrameScan, whileFuel, frameGetScanGuard, frameGetScanBody, hown, heof] using ih _
      · simp [rxFrameScan, whileFuel, frameGetScanGuard, frameGetScanBody, hown, heof,
          whileFuel_of_not]

/-- The `.scan` step of the system model starts the second loop exactly when the first loop of
`frame_get` finds a complete frame. -/
theorem frameGetStart_iff (q : RxQueue) (p : RxPool) (okFrame : Bool) (fg : FrameGet) :
    frameGetStart q okFrame = some fg ↔ fg = (frameGetInit q p okFrame).fg ∧
      ∃ t, frameGetScan q.rxDescList q.rxDescList.len = some (.ok (t, true)) := by
  rw [frameGetScan, ← rxFrameScan_iff_whileFuel, frameGetStart]
  by_cases hs : rxFrameScan q.rxDescList q.rxDescList.len q.rxDescList.tail
  · simp [hs, frameGetInit, eq_comm]
  · simp [hs]

theorem rxFrameScan_eq_false {l : GmacDescList} {fuel t t' : Nat}
    (h : whileFuel (frameGetScanGuard l) (frameGetScanBody l) fuel (t, false) =
      some (.ok (t', false))) (fuel' : Nat) : rxFrameScan l fuel' t = false := by
  cases hs : rxFrameScan l fuel' t
  · rfl
  · obtain ⟨t'', h'⟩ := (rxFrameScan_iff_whileFuel l fuel' t).mp hs
    cases whileFuel_det h h'

theorem frameGetScan_len_of_eof {l : GmacDescList} {fuel t' : Nat} (hR : 0 < l.len)
    (ht : l.tail < l.len) (h : frameGetScan l fuel = some (.ok (t', true))) :
    frameGetScan l l.len = some (.ok (t', true)) := by
  cases hl : frameGetScan l l.len with
  | none =>
    rw [frameGetScan_diverges hR ht (frameGetScan_len_none hR ht hl) fuel] at h
    cases h
  | some r => exact congrArg some (whileFuel_det h hl).symm

theorem rxFrameScan_congr {l l' : GmacDescList} (hlen : l'.len = l.len) {fuel t : Nat}
    (ht : t < l.len) (h : ∀ j < fuel, l'.buf (slotAfter l.len t j) = l.buf (slotAfter l.len t j)) :
    rxFrameScan l' fuel t = rxFrameScan l fuel t := by
  induction fuel generalizing t with
  | zero => rfl
  | succ fuel ih =>
    have h0 := h 0 (by omega)
    rw [slotAfter_zero ht] at h0
    simp only [rxFrameScan, h0, hlen]
    rw [ih (moduloInc_lt (by omega)) fun j hj => by
      simpa [slotAfter_moduloInc ht] using h (j + 1) (by omega)]

theorem rxFrameScan_mono {l : GmacDescList} {fuel fuel' t : Nat}
    (h : rxFrameScan l fuel t = true) (hle : fuel ≤ fuel') : rxFrameScan l fuel' t = true := by
  induction fuel generalizing fuel' t with
  | zero => simp [rxFrameScan] at h
  | succ fuel ih =>
    obtain ⟨fuel', rfl⟩ : ∃ f, fuel' = f + 1 := ⟨fuel' - 1, by omega⟩
    simp only [rxFrameScan] at h ⊢
    split at h
    · rw [if_pos ‹_›]
      simp only [Bool.or_eq_true] at h ⊢
      exact h.imp id (ih · (by omega))
    · cases h

/-! ## eth_rx -/

/-- When `frame_get` drops the frame at the tail, `eth_rx` returns at once and leaves a complete
frame that follows it in the ring. -/
theorem eth_rx_stops_at_dropped_frame {dataSize k n : Nat} {env : Nat → RxEnv} {q : RxQueue}
    {p : RxPool} (hf : q.FrameAt p k) (hl : FrameGetLinks (env 0).okFrame (env 0).okFrag k n)
    (hn : n < k) (hnext : rxFrameScan q.rxDescList (q.rxDescList.len - k) (q.slot k) = true) :
    ∃ q' p' rel, (∀ fuel, k ≤ fuel → ethRx dataSize env fuel 0 q p = some (.ok (q', p', [], rel))) ∧
      q'.rxDescList.tail = q.slot k ∧
      rxFrameScan q'.rxDescList q'.rxDescList.len q'.rxDescList.tail = true := by
  obtain ⟨s, hs, hget⟩ := frameGet_frameAt dataSize hf hl
  have hR : 0 < q.rxDescList.len := by have := hf.le; have := hf.pos; omega
  have htail : s.fg.tail = q.slot k := by rw [hs.fg]
  refine ⟨frameGetEnd s.q s.fg, s.p, s.released, fun fuel hfuel => ?_, htail, ?_⟩
  · obtain ⟨fuel, rfl⟩ : ∃ f, fuel = f + 1 := ⟨fuel - 1, by have := hf.pos; omega⟩
    have hnone : s.fg.rxFrame = none := by
      rw [hs.fg, if_neg fun h => absurd h.2 (by omega)]
    simp [ethRx, hget _ hfuel, hnone]
  · have hslot : q.slot k < q.rxDescList.len := Nat.mod_lt _ hR
    have hcongr : rxFrameScan (frameGetEnd s.q s.fg).rxDescList (q.rxDescList.len - k) (q.slot k) =
        rxFrameScan q.rxDescList (q.rxDescList.len - k) (q.slot k) :=
      @rxFrameScan_congr q.rxDescList (frameGetEnd s.q s.fg).rxDescList hs.len _ _ hslot fun j hj => by
        show s.q.rxDescList.buf _ = _
        rw [RxQueue.slot, slotAfter_slotAfter]
        refine (hs.others _ fun i hi h => ?_).2
        have := slotAfter_inj (by omega) (by have := hf.le; omega) h
        omega
    rw [show (frameGetEnd s.q s.fg).rxDescList.len = q.rxDescList.len from hs.len,
      show (frameGetEnd s.q s.fg).rxDescList.tail = q.slot k from htail]
    exact rxFrameScan_mono (hcongr.trans hnext) (Nat.sub_le _ _)

/-- Two one-buffer frames in slots 0 and 1, and no frame container for the first `frame_get`. -/
theorem eth_rx_stops_at_dropped_frame_two :
    ∃ (q : RxQueue) (p : RxPool), q.FrameAt p 1 ∧
      FrameGetLinks false (fun _ => true) 1 0 ∧ 0 < 1 ∧
      rxFrameScan q.rxDescList (q.rxDescList.len - 1) (q.slot 1) = true ∧
      ∃ q' p' rel, (∀ fuel, 1 ≤ fuel →
          ethRx 64 (fun n => ⟨n != 0, fun _ => true, true⟩) fuel 0 q p =
            some (.ok (q', p', [], rel))) ∧
        q'.rxDescList.tail = q.slot 1 ∧
        rxFrameScan q'.rxDescList q'.rxDescList.len q'.rxDescList.tail = true := by
  let q : RxQueue :=
    ⟨⟨fun i => if i < 2 then ⟨BitVec.ofNat 32 (0x20000001 + 0x100 * i), 0xC03C⟩
        else ⟨BitVec.ofNat 32 (0x20000000 + 0x100 * i), 0⟩, 4, 0, 0⟩,
      ⟨fun i => .buf i, 4, 0, 0⟩, 0, 0⟩
  let p : RxPool := ⟨4, fun b => BitVec.ofNat 32 (0x20000000 + 0x100 * b)⟩
  have hf : q.FrameAt p 1 := ⟨by decide, by decide, by decide, by decide, by decide, by decide,
    by decide⟩
  have hl : FrameGetLinks false (fun _ => true) 1 0 := ⟨by omega, .inr ⟨rfl, rfl⟩⟩
  have hnext : rxFrameScan q.rxDescList (q.rxDescList.len - 1) (q.slot 1) = true := by decide
  exact ⟨q, p, hf, hl, by omega, hnext, eth_rx_stops_at_dropped_frame hf hl (by omega) hnext⟩

end SamGmac.Rx
