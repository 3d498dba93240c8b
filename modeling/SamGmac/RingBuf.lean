import SamGmac.Desc

/-! # `struct ring_buf`

The array of 32-bit values behind `tx_frames` (the packets waiting for TX completion) and
`rx_frag_list` (the buffer behind each RX descriptor). The values are pointers cast to `u32_t`;
`α` is what they point at. The `__ASSERT`s are not part of the functions; the callers' models
state them.
-/

namespace SamGmac

/-- `struct ring_buf`: `len` slots, read at `tail` and written at `head`. -/
structure RingBuf (α : Type) where
  buf : Nat → α
  len : Nat
  head : Nat
  tail : Nat

variable {α : Type}

/-- `ring_buf_reset`. -/
def ringBufReset (rb : RingBuf α) : RingBuf α := { rb with head := 0, tail := 0 }

/-- `ring_buf_get`: the value at `tail`, and `tail` moved on. -/
def ringBufGet (rb : RingBuf α) : α × RingBuf α :=
  (rb.buf rb.tail, { rb with tail := moduloInc rb.tail rb.len })

/-- `ring_buf_put`: `val` stored at `head`, and `head` moved on. -/
def ringBufPut (rb : RingBuf α) (val : α) : RingBuf α :=
  { rb with buf := setAt rb.buf rb.head val, head := moduloInc rb.head rb.len }

/-- How many values lie from `tail` up to `head`. -/
def RingBuf.count (rb : RingBuf α) : Nat := (rb.head + rb.len - rb.tail) % rb.len

/-- The values from `tail` up to `head`, oldest first. -/
def RingBuf.contents (rb : RingBuf α) : List α :=
  (List.range rb.count).map fun k => rb.buf (slotAfter rb.len rb.tail k)

theorem RingBuf.count_eq_zero_iff {rb : RingBuf α} (ht : rb.tail < rb.len) (hh : rb.head < rb.len) :
    rb.count = 0 ↔ rb.tail = rb.head := by
  unfold RingBuf.count
  constructor
  · intro h
    by_cases hle : rb.tail ≤ rb.head
    · rw [show rb.head + rb.len - rb.tail = (rb.head - rb.tail) + rb.len by omega,
        Nat.add_mod_right, Nat.mod_eq_of_lt (by omega)] at h
      omega
    · rw [Nat.mod_eq_of_lt (by omega)] at h
      omega
  · intro h
    rw [h, Nat.add_sub_cancel_left, Nat.mod_self]

theorem RingBuf.count_lt (rb : RingBuf α) (h : 0 < rb.len) : rb.count < rb.len := Nat.mod_lt _ h

/-- Taking the oldest value leaves one fewer. -/
theorem RingBuf.count_of_ne {rb : RingBuf α} (ht : rb.tail < rb.len) (hh : rb.head < rb.len)
    (hne : rb.tail ≠ rb.head) :
    rb.count = { rb with tail := moduloInc rb.tail rb.len }.count + 1 := by
  simp only [RingBuf.count, moduloInc_apply]
  split
  · by_cases hle : rb.tail ≤ rb.head
    · rw [show rb.head + rb.len - rb.tail = (rb.head - rb.tail) + rb.len by omega,
        show rb.head + rb.len - (rb.tail + 1) = (rb.head - rb.tail - 1) + rb.len by omega,
        Nat.add_mod_right, Nat.add_mod_right, Nat.mod_eq_of_lt (by omega),
        Nat.mod_eq_of_lt (by omega)]
      omega
    · rw [Nat.mod_eq_of_lt (by omega), Nat.mod_eq_of_lt (by omega)]
      omega
  · rw [Nat.mod_eq_of_lt (by omega), show rb.head + rb.len - 0 = rb.head + rb.len by omega,
      Nat.add_mod_right, Nat.mod_eq_of_lt hh]
    omega

/-- ... and the rest in the same order. -/
theorem RingBuf.contents_of_ne {rb : RingBuf α} (ht : rb.tail < rb.len) (hh : rb.head < rb.len)
    (hne : rb.tail ≠ rb.head) :
    rb.contents = rb.buf rb.tail :: { rb with tail := moduloInc rb.tail rb.len }.contents := by
  simp only [RingBuf.contents, RingBuf.count_of_ne ht hh hne, List.range_succ_eq_map,
    List.map_cons, List.map_map]
  congr 1
  · simp [slotAfter, Nat.mod_eq_of_lt ht]
  · apply List.map_congr_left
    intro k _
    simp only [Function.comp, slotAfter, moduloInc_eq ht, Nat.mod_add_mod]
    congr 2
    omega

/-- `head` lies `count` slots after `tail`. -/
theorem RingBuf.slotAfter_count {rb : RingBuf α} (ht : rb.tail < rb.len) (hh : rb.head < rb.len) :
    slotAfter rb.len rb.tail rb.count = rb.head := by
  unfold slotAfter RingBuf.count
  rw [Nat.add_mod_mod, show rb.tail + (rb.head + rb.len - rb.tail) = rb.head + rb.len by omega,
    Nat.add_mod_right, Nat.mod_eq_of_lt hh]

/-- `ring_buf_put` on a ring with room for one more value. -/
theorem RingBuf.count_put {rb : RingBuf α} (ht : rb.tail < rb.len) (hh : rb.head < rb.len)
    (hc : rb.count + 1 < rb.len) (val : α) : (ringBufPut rb val).count = rb.count + 1 := by
  have hh' : (ringBufPut rb val).head = slotAfter rb.len rb.tail (rb.count + 1) := by
    rw [ringBufPut, ← moduloInc_slotAfter (by omega), RingBuf.slotAfter_count ht hh]
  have := @RingBuf.slotAfter_count _ (ringBufPut rb val) ht (hh' ▸ Nat.mod_lt _ (by omega))
  exact slotAfter_inj ((ringBufPut rb val).count_lt (by simp [ringBufPut]; omega)) hc
    (this.trans hh')

/-- ... and the value goes at the back. -/
theorem RingBuf.contents_put {rb : RingBuf α} (ht : rb.tail < rb.len) (hh : rb.head < rb.len)
    (hc : rb.count + 1 < rb.len) (val : α) :
    (ringBufPut rb val).contents = rb.contents ++ [val] := by
  simp only [RingBuf.contents, RingBuf.count_put ht hh hc, List.range_succ, List.map_append,
    List.map_singleton]
  have hl : (ringBufPut rb val).len = rb.len := rfl
  congr 1
  · apply List.map_congr_left
    intro k hk
    have hne : slotAfter rb.len rb.tail k ≠ rb.head := fun h =>
      absurd (slotAfter_inj (by simp at hk; omega) (rb.count_lt (by omega))
        (h.trans (RingBuf.slotAfter_count ht hh).symm)) (by simp at hk; omega)
    simp [hl, ringBufPut, setAt_ne _ _ hne]
  · simp [hl, ringBufPut, RingBuf.slotAfter_count ht hh]

/-- The assertion of `ring_buf_put` fails exactly when the ring already held `len - 1` values. -/
theorem RingBuf.put_tail_eq_head_iff {rb : RingBuf α} (ht : rb.tail < rb.len)
    (hh : rb.head < rb.len) (val : α) :
    (ringBufPut rb val).tail = (ringBufPut rb val).head ↔ rb.count = rb.len - 1 := by
  have hh' : (ringBufPut rb val).head = slotAfter rb.len rb.tail (rb.count + 1) := by
    rw [ringBufPut, ← moduloInc_slotAfter (by omega), RingBuf.slotAfter_count ht hh]
  have hc := rb.count_lt (by omega)
  rw [hh', show (ringBufPut rb val).tail = slotAfter rb.len rb.tail 0 from (slotAfter_zero ht).symm]
  constructor
  · intro h
    by_contra hne
    exact absurd (slotAfter_inj (by omega) (by omega) h) (by omega)
  · intro h
    rw [h, Nat.sub_add_cancel (by omega)]
    simp [slotAfter]

/-! ## Sequences of calls -/

/-- A call of `ring_buf_put` or `ring_buf_get`. -/
inductive RingOp (α : Type) where
  | put (val : α)
  | get
  deriving DecidableEq, Repr

/-- One call: the ring after it, and the value `ring_buf_get` returns. -/
def ringBufOp (rb : RingBuf α) : RingOp α → RingBuf α × Option α
  | .put val => (ringBufPut rb val, none)
  | .get => ((ringBufGet rb).2, some (ringBufGet rb).1)

/-- The `__ASSERT` of the call holds: `ring_buf_get` checks `tail != head` before it reads,
`ring_buf_put` after it has written. -/
def RingOp.asserts (rb : RingBuf α) : RingOp α → Bool
  | .put val => (ringBufPut rb val).tail != (ringBufPut rb val).head
  | .get => rb.tail != rb.head

/-- A sequence of calls from state `s`: the state after them, and the values they return. -/
def opsRun {σ : Type} (op : σ → RingOp α → σ × Option α) (s : σ) : List (RingOp α) → σ × List α
  | [] => (s, [])
  | o :: os => ((opsRun op (op s o).1 os).1, (op s o).2.toList ++ (opsRun op (op s o).1 os).2)

/-- Every call of the sequence passes its assertion. -/
def ringBufValid (rb : RingBuf α) : List (RingOp α) → Bool
  | [] => true
  | o :: os => o.asserts rb && ringBufValid (ringBufOp rb o).1 os

/-- The queue a ring buffer stands for: `put` adds at the back, `get` takes the oldest value. -/
def fifoOp (xs : List α) : RingOp α → List α × Option α
  | .put val => (xs ++ [val], none)
  | .get => (xs.tail, xs.head?)

/-- Every call keeps both indices in the ring. -/
theorem ringBufOp_lt {rb : RingBuf α} (hn : 0 < rb.len) (ht : rb.tail < rb.len)
    (hh : rb.head < rb.len) (o : RingOp α) :
    (ringBufOp rb o).1.len = rb.len ∧ (ringBufOp rb o).1.tail < rb.len ∧
      (ringBufOp rb o).1.head < rb.len := by
  cases o <;> exact ⟨rfl, by simp [ringBufOp, ringBufPut, ringBufGet, ht, hh, moduloInc_lt hn]⟩

theorem opsRun_lt {rb : RingBuf α} (hn : 0 < rb.len) (ht : rb.tail < rb.len)
    (hh : rb.head < rb.len) (ops : List (RingOp α)) :
    (opsRun ringBufOp rb ops).1.tail < rb.len ∧ (opsRun ringBufOp rb ops).1.head < rb.len := by
  induction ops generalizing rb with
  | nil => exact ⟨ht, hh⟩
  | cons o os ih =>
    obtain ⟨hl, ht', hh'⟩ := ringBufOp_lt hn ht hh o
    exact hl ▸ ih (hl ▸ hn) (hl ▸ ht') (hl ▸ hh')

/-- A call whose assertion holds does to the values from `tail` to `head` what the queue does. -/
theorem ringBufOp_fifo {rb : RingBuf α} (ht : rb.tail < rb.len) (hh : rb.head < rb.len)
    {o : RingOp α} (ho : o.asserts rb = true) :
    (ringBufOp rb o).1.contents = (fifoOp rb.contents o).1 ∧
      (ringBufOp rb o).2 = (fifoOp rb.contents o).2 := by
  cases o with
  | put val =>
    have hc : rb.count + 1 < rb.len := by
      have := rb.count_lt (by omega)
      have := (RingBuf.put_tail_eq_head_iff ht hh val).not.mp (by simpa [RingOp.asserts] using ho)
      omega
    exact ⟨RingBuf.contents_put ht hh hc val, rfl⟩
  | get =>
    have hne : rb.tail ≠ rb.head := by simpa [RingOp.asserts] using ho
    simp [ringBufOp, fifoOp, ringBufGet, RingBuf.contents_of_ne ht hh hne]

/-- Over any sequence whose assertions hold, the ring is the queue: the values from `tail` to
`head` are the values put and not yet got, in order, and each get returns the oldest. -/
theorem opsRun_fifo {rb : RingBuf α} (hn : 0 < rb.len) (ht : rb.tail < rb.len)
    (hh : rb.head < rb.len) {ops : List (RingOp α)} (hv : ringBufValid rb ops = true) :
    (opsRun ringBufOp rb ops).1.contents = (opsRun fifoOp rb.contents ops).1 ∧
      (opsRun ringBufOp rb ops).2 = (opsRun fifoOp rb.contents ops).2 := by
  induction ops generalizing rb with
  | nil => exact ⟨rfl, rfl⟩
  | cons o os ih =>
    simp only [ringBufValid, Bool.and_eq_true] at hv
    obtain ⟨hl, ht', hh'⟩ := ringBufOp_lt hn ht hh o
    obtain ⟨hc, hr⟩ := ringBufOp_fifo ht hh hv.1
    obtain ⟨ih₁, ih₂⟩ := ih (hl ▸ hn) (hl ▸ ht') (hl ▸ hh') hv.2
    simp only [opsRun, ← hc, ← hr, ih₁, ih₂, and_self]

/-- The assertion of `ring_buf_put` is what keeps the queue: in a ring of two slots the second
put brings `head` round to `tail`, and after a third put the one value a get may take is 9,
where the queue gives the oldest value, 7. -/
theorem ring_buf_overflow_loses_values :
    (opsRun ringBufOp (ringBufReset (⟨fun _ => 0, 2, 0, 0⟩ : RingBuf Nat))
        [.put 7, .put 8, .put 9]).1.tail ≠
      (opsRun ringBufOp (ringBufReset (⟨fun _ => 0, 2, 0, 0⟩ : RingBuf Nat))
        [.put 7, .put 8, .put 9]).1.head ∧
    (opsRun ringBufOp (ringBufReset (⟨fun _ => 0, 2, 0, 0⟩ : RingBuf Nat))
      [.put 7, .put 8, .put 9, .get]).2 = [9] ∧
    (opsRun fifoOp [] [.put 7, .put 8, .put 9, .get]).2 = [7] := by
  decide

/-- `count` calls of `ring_buf_get` take every value, oldest first, and empty the ring. -/
theorem RingBuf.gets_count {rb : RingBuf α} (ht : rb.tail < rb.len) (hh : rb.head < rb.len) :
    opsRun ringBufOp rb (List.replicate rb.count .get) = ({ rb with tail := rb.head }, rb.contents) ∧
      ringBufValid rb (List.replicate rb.count .get) = true := by
  obtain ⟨n, h⟩ : ∃ n, rb.count = n := ⟨_, rfl⟩
  rw [h]
  induction n generalizing rb with
  | zero =>
    have := (RingBuf.count_eq_zero_iff ht hh).mp h
    cases rb
    simp_all [opsRun, ringBufValid, RingBuf.contents]
  | succ n ih =>
    have hne : rb.tail ≠ rb.head := fun he => by
      rw [(RingBuf.count_eq_zero_iff ht hh).mpr he] at h; cases h
    have hc := RingBuf.count_of_ne ht hh hne
    obtain ⟨ih₁, ih₂⟩ := @ih { rb with tail := moduloInc rb.tail rb.len }
      (moduloInc_lt (by omega)) hh (by omega)
    simp only [List.replicate_succ, opsRun, ringBufValid, ringBufOp, ringBufGet, ih₁, ih₂,
      RingOp.asserts, RingBuf.contents_of_ne ht hh hne]
    simp [hne]

@[simp] theorem RingBuf.contents_reset (rb : RingBuf α) : (ringBufReset rb).contents = [] := by
  simp [RingBuf.contents, RingBuf.count, ringBufReset]

end SamGmac
