import UpdiProgrammer.HostTest.Emulator

namespace UpdiProgrammer.HostTest

open Updi UpdiLink

/-- What a push leaves in the ring: a full ring drops the byte. -/
def enqueue (q : List UInt8) (b : UInt8) : List UInt8 :=
  if q.length + 1 = emuRxCap then q else q ++ [b]

def enqueueAll (q l : List UInt8) : List UInt8 := l.foldl enqueue q

theorem enqueueAll_of_lt {q l : List UInt8} (h : q.length + l.length < emuRxCap) :
    enqueueAll q l = q ++ l := by
  induction l generalizing q with
  | nil => simp [enqueueAll]
  | cons b l ih =>
    simp only [List.length_cons] at h
    have hb : enqueue q b = q ++ [b] := if_neg (by omega)
    have h' : (q ++ [b]).length + l.length < emuRxCap := by
      simp only [List.length_append, List.length_singleton]
      omega
    simpa only [enqueueAll, List.foldl_cons, hb, List.append_assoc,
      List.singleton_append] using ih h'

theorem enqueueAll_cons (q : List UInt8) (b : UInt8) (l : List UInt8) :
    enqueueAll q (b :: l) = enqueueAll (enqueue q b) l := rfl

namespace UpdiEmu

/-- The target is between instructions, with memory `m`, unread answers
`q` and a pending repeat counter `r`. -/
structure At (m : EmuMem) (q : List UInt8) (r : ℕ) (e : UpdiEmu) : Prop where
  mem : e.mem = m
  state : e.state = .idle
  rx : e.rx = q
  repeatNext : e.repeatNext = r

variable {P : AckPolicy} {e : UpdiEmu} {m : EmuMem} {q : List UInt8} {r : ℕ}

theorem rxPush_eq (e : UpdiEmu) (b : UInt8) : e.rxPush b = { e with rx := enqueue e.rx b } := by
  unfold rxPush enqueue
  split_ifs <;> rfl

theorem rxPushAll_eq (e : UpdiEmu) (l : List UInt8) :
    e.rxPushAll l = { e with rx := enqueueAll e.rx l } := by
  induction l generalizing e with
  | nil => rfl
  | cons b l ih =>
    rw [enqueueAll_cons]
    exact (congrArg (rxPushAll · l) (rxPush_eq e b)).trans (ih _)

def ackBytes (P : AckPolicy) (m : EmuMem) : List UInt8 :=
  if P.store (m.cs csCtrla) then [phyAck] else []

theorem pushAck_eq (P : AckPolicy) (e : UpdiEmu) :
    e.pushAck P = { e with rx := enqueueAll e.rx (ackBytes P e.mem) } := by
  unfold pushAck ackBytes
  split_ifs
  · exact rxPush_eq e phyAck
  · rfl

theorem ldLoop_eq (n : ℕ) (e : UpdiEmu) (h : e.ptr + n < 2 ^ 32) :
    ldLoop n e = { e with
      rx := enqueueAll e.rx ((List.range n).map fun i ↦ e.mem.memRead (e.ptr + i))
      ptr := e.ptr + n } := by
  induction n generalizing e with
  | zero => rfl
  | succ n ih =>
    have hptr : (e.ptr + 1) % 2 ^ 32 = e.ptr + 1 := Nat.mod_eq_of_lt (by omega)
    rw [ldLoop, rxPush_eq, hptr, ih _ (by simpa only [Nat.add_assoc, Nat.add_comm 1 n] using h)]
    simp only [List.range_succ_eq_map, List.map_cons, List.map_map, enqueueAll_cons, Nat.add_zero,
      Function.comp_def, Nat.add_assoc, Nat.succ_eq_add_one, Nat.add_comm 1]

theorem feed_append (a b : List UInt8) : e.feed P (a ++ b) = (e.feed P a).feed P b :=
  List.foldl_append

@[simp] theorem feed_nil : e.feed P [] = e := rfl

theorem feed_cons (b : UInt8) (l : List UInt8) : e.feed P (b :: l) = (e.feedByte P b).feed P l :=
  rfl

theorem feed_frame (h : e.state = .idle) (op : UInt8) (rest : List UInt8) :
    e.feed P (phySync :: op :: rest) =
      (({ e with state := .opcode } : UpdiEmu).feedOpcode op).feed P rest := by
  have hs : e.feedByte P phySync = { e with state := .opcode } := by
    unfold feedByte
    rw [h]
    rfl
  rw [feed_cons, feed_cons, hs]
  rfl

theorem feed_accumulate (l : List UInt8) (e : UpdiEmu)
    (hs : e.state = .ldsAddr ∨ e.state = .stsAddr ∨ e.state = .stsData ∨ e.state = .stptrAddr ∨
      e.state = .key) (hl : e.acc.length + l.length < e.need) :
    e.feed P l = { e with acc := e.acc ++ l } := by
  induction l generalizing e with
  | nil => simp
  | cons b l ih =>
    simp only [List.length_cons] at hl
    have hb : e.feedByte P b = { e with acc := e.acc ++ [b] } := by
      have hlt : ¬e.need ≤ (e.acc ++ [b]).length := by
        simp only [List.length_append, List.length_singleton]
        omega
      unfold feedByte
      rcases hs with h | h | h | h | h <;> rw [h] <;> exact if_neg hlt
    rw [feed_cons, hb, ih { e with acc := e.acc ++ [b] } hs
      (by simp only [List.length_append, List.length_singleton]; omega)]
    simp only [List.append_assoc, List.singleton_append]

theorem feed_operand {l : List UInt8} (hs : e.state = .ldsAddr ∨ e.state = .stsAddr ∨
    e.state = .stsData ∨ e.state = .stptrAddr ∨ e.state = .key)
    (hl : e.acc.length + l.length = e.need) (hne : l ≠ []) :
    e.feed P l = ({ e with acc := e.acc ++ l.dropLast } : UpdiEmu).feedByte P (l.getLast hne) := by
  have hpos : 0 < l.length := List.length_pos_iff.mpr hne
  have hlt : e.acc.length + l.dropLast.length < e.need := by
    rw [List.length_dropLast]
    omega
  conv_lhs => rw [← List.dropLast_append_getLast hne]
  rw [feed_append, feed_accumulate _ e hs hlt]
  rfl

theorem acc_getLast (acc : List UInt8) {l : List UInt8} (hne : l ≠ []) :
    acc ++ l.dropLast ++ [l.getLast hne] = acc ++ l := by
  rw [List.append_assoc, List.dropLast_append_getLast hne]

theorem feed_ldsAddr {l : List UInt8} (hs : e.state = .ldsAddr)
    (hl : e.acc.length + l.length = e.need) (hne : l ≠ []) :
    e.feed P l =
      { ({ e with acc := e.acc ++ l, curAddr := leValue (e.acc ++ l) } : UpdiEmu).rxPushAll
      ((List.range e.dataSize).map fun i ↦ e.mem.memRead (leValue (e.acc ++ l) + i)) with
        state := .idle } := by
  rw [feed_operand (.inl hs) hl hne]
  simp only [feedByte, hs, acc_getLast, List.length_append, hl, le_refl, if_true]

theorem feed_stsAddr {l : List UInt8} (hs : e.state = .stsAddr)
    (hl : e.acc.length + l.length = e.need) (hne : l ≠ []) :
    e.feed P l =
      { ({ e with acc := e.acc ++ l, curAddr := leValue (e.acc ++ l) } : UpdiEmu).pushAck P with
      acc := [], need := e.dataSize, state := .stsData } := by
  rw [feed_operand (.inr (.inl hs)) hl hne]
  simp only [feedByte, hs, acc_getLast, List.length_append, hl, le_refl, if_true]

theorem feed_stsData {l : List UInt8} (hs : e.state = .stsData)
    (hl : e.acc.length + l.length = e.need) (hne : l ≠ []) :
    e.feed P l = { ({ e with
      acc := e.acc ++ l, mem := e.mem.writeAll e.curAddr (e.acc ++ l) } : UpdiEmu).pushAck P with
        state := .idle } := by
  rw [feed_operand (.inr (.inr (.inl hs))) hl hne]
  simp only [feedByte, hs, acc_getLast, List.length_append, hl, le_refl, if_true]

theorem feed_stptrAddr {l : List UInt8} (hs : e.state = .stptrAddr)
    (hl : e.acc.length + l.length = e.need) (hne : l ≠ []) :
    e.feed P l =
      { ({ e with acc := e.acc ++ l, ptr := leValue (e.acc ++ l) } : UpdiEmu).pushAck P with
      state := .idle } := by
  rw [feed_operand (.inr (.inr (.inr (.inl hs)))) hl hne]
  simp only [feedByte, hs, acc_getLast, List.length_append, hl, le_refl, if_true]

theorem feed_key {l : List UInt8} (hs : e.state = .key) (hl : e.acc.length + l.length = e.need)
    (hneed : e.need = 8) (hne : l ≠ []) :
    e.feed P l = { e with
      acc := e.acc ++ l, mem := e.mem.applyKey (e.acc ++ l).reverse, state := .idle } := by
  have hlen : (e.acc ++ l).length = 8 := by
    rw [List.length_append, hl, hneed]
  rw [feed_operand (.inr (.inr (.inr (.inr hs)))) hl hne]
  simp only [feedByte, hs, acc_getLast, hlen, le_refl, if_true, hneed,
    List.take_of_length_le (le_of_eq hlen)]

/-- A pointer is set, and a repeat counter may be pending. -/
structure Aimed (m : EmuMem) (q : List UInt8) (r p : ℕ) (e : UpdiEmu) :
    Prop extends At m q r e where
  ptr : e.ptr = p

theorem At.send_break (h : At m q r e) : At m q r (e.feed P [updiBreak]) := by
  have he : e.feed P [updiBreak] = e := by
    rw [feed_cons, feed_nil]
    unfold feedByte
    rw [h.state]
    rfl
  rwa [he]

theorem group_ldcs (a : UInt8) : ((updiLdcs ||| (a &&& 0x0F)) >>> 5).toNat = 4 := by
  have h : (updiLdcs ||| (a &&& 0x0F)) >>> 5 = 4 := by
    apply UInt8.toBitVec_inj.mp
    simp
    generalize a.toBitVec = x
    revert x
    decide
  rw [h]
  rfl

theorem group_stcs (a : UInt8) : ((updiStcs ||| (a &&& 0x0F)) >>> 5).toNat = 6 := by
  have h : (updiStcs ||| (a &&& 0x0F)) >>> 5 = 6 := by
    apply UInt8.toBitVec_inj.mp
    simp
    generalize a.toBitVec = x
    revert x
    decide
  rw [h]
  rfl

theorem operand_ldcs (a : UInt8) : (updiLdcs ||| (a &&& 0x0F)) &&& 0x0F = a &&& 0x0F := by
  apply UInt8.toBitVec_inj.mp
  simp
  generalize a.toBitVec = x
  revert x
  decide

theorem operand_stcs (a : UInt8) : (updiStcs ||| (a &&& 0x0F)) &&& 0x0F = a &&& 0x0F := by
  apply UInt8.toBitVec_inj.mp
  simp
  generalize a.toBitVec = x
  revert x
  decide

theorem At.ldcs (h : At m q r e) (a : UInt8) :
    At m (enqueue q (m.cs (a &&& 0x0F))) r (e.feed P [phySync, updiLdcs ||| (a &&& 0x0F)]) := by
  rw [feed_frame h.state, feed_nil]
  simp only [feedOpcode, group_ldcs, operand_ldcs, rxPush_eq]
  exact ⟨h.mem, rfl, by rw [h.rx, h.mem], h.repeatNext⟩

theorem At.stcs (h : At m q r e) (a v : UInt8) :
    At (m.applyStcs (a &&& 0x0F) v) q r (e.feed P [phySync, updiStcs ||| (a &&& 0x0F), v]) := by
  rw [feed_frame h.state]
  simp only [feedOpcode, group_stcs, operand_stcs]
  rw [feed_cons, feed_nil]
  exact ⟨congrArg (EmuMem.applyStcs · _ v) h.mem, rfl, h.rx, h.repeatNext⟩

theorem Aimed.stcs {p : ℕ} (h : Aimed m q r p e) (a v : UInt8) :
    Aimed (m.applyStcs (a &&& 0x0F) v) q r p
      (e.feed P [phySync, updiStcs ||| (a &&& 0x0F), v]) := by
  refine ⟨h.toAt.stcs a v, ?_⟩
  rw [feed_frame h.state]
  simp only [feedOpcode, group_stcs, operand_stcs]
  rw [feed_cons, feed_nil]
  exact h.ptr

theorem Aimed.send_repeat {p : ℕ} (h : Aimed m q r p e) (n : UInt8) :
    Aimed m q n.toNat p (e.feed P [phySync, updiRepeat ||| repeatByte, n]) := by
  rw [feed_frame h.state]
  exact ⟨⟨h.mem, rfl, h.rx, rfl⟩, h.ptr⟩

def addressSpace (a24 : Bool) : ℕ := if a24 then 2 ^ 24 else 2 ^ 16

def wireAddress (a24 : Bool) (address : ℕ) : ℕ := address % addressSpace a24

theorem putAddress_length (a24 : Bool) (address : ℕ) :
    (putAddress a24 address).length = if a24 then 3 else 2 := by
  cases a24 <;> rfl

theorem addressed (a24 : Bool) (address : ℕ) :
    ([] : List UInt8).length + (putAddress a24 address).length = if a24 then 3 else 2 := by
  cases a24 <;> rfl

theorem putAddress_ne_nil (a24 : Bool) (address : ℕ) : putAddress a24 address ≠ [] := by
  cases a24 <;> exact List.cons_ne_nil _ _

theorem leValue_putAddress (a24 : Bool) (address : ℕ) :
    leValue (putAddress a24 address) = wireAddress a24 address := by
  cases a24
  · simp [putAddress, leValue, wireAddress, addressSpace]
    omega
  · simp [putAddress, leValue, wireAddress, addressSpace]
    omega

theorem feedOpcode_lds (e : UpdiEmu) (a24 : Bool) :
    e.feedOpcode (updiLds ||| (if a24 then address24 else address16) ||| data8) =
      { e with dataSize := 1, need := if a24 then 3 else 2, acc := [], state := .ldsAddr } := by
  cases a24 <;> rfl

theorem feedOpcode_sts (e : UpdiEmu) (a24 d16 : Bool) :
    e.feedOpcode (updiSts ||| (if a24 then address24 else address16) |||
      (if d16 then data16 else data8)) =
      { e with
        dataSize := if d16 then 2 else 1, need := if a24 then 3 else 2, acc := [], state :=
          .stsAddr } := by
  cases a24 <;> cases d16 <;> rfl

theorem feedOpcode_stPtr (e : UpdiEmu) (a24 : Bool) :
    e.feedOpcode (updiSt ||| ptrAddress ||| (if a24 then data24 else data16)) =
      { e with need := if a24 then 3 else 2, acc := [], state := .stptrAddr } := by
  cases a24 <;> rfl

theorem At.lds (h : At m q r e) (a24 : Bool) (address : ℕ) :
    At m (enqueue q (m.memRead (wireAddress a24 address))) r (e.feed P
      ([phySync, updiLds ||| (if a24 then address24 else address16) ||| data8] ++
        putAddress a24 address)) := by
  rw [List.cons_append, List.cons_append, List.nil_append, feed_frame h.state, feedOpcode_lds,
    feed_ldsAddr rfl (addressed a24 address) (putAddress_ne_nil a24 address), List.nil_append,
    leValue_putAddress, rxPushAll_eq]
  refine ⟨h.mem, rfl, ?_, h.repeatNext⟩
  simp only [h.rx, h.mem]
  rfl

/-- The target waits for the data of a store, having acknowledged the address. -/
structure Storing (m : EmuMem) (q : List UInt8) (r addr n : ℕ) (e : UpdiEmu) : Prop where
  mem : e.mem = m
  state : e.state = .stsData
  rx : e.rx = q
  repeatNext : e.repeatNext = r
  curAddr : e.curAddr = addr
  acc : e.acc = []
  need : e.need = n

theorem At.sts (h : At m q r e) (a24 : Bool) (address : ℕ) (d16 : Bool) :
    Storing m (enqueueAll q (ackBytes P m)) r (wireAddress a24 address)
      (if d16 then 2 else 1) (e.feed P
      ([phySync, updiSts ||| (if a24 then address24 else address16) |||
        (if d16 then data16 else data8)] ++ putAddress a24 address)) := by
  rw [List.cons_append, List.cons_append, List.nil_append, feed_frame h.state, feedOpcode_sts,
    feed_stsAddr rfl (addressed a24 address) (putAddress_ne_nil a24 address), List.nil_append,
    leValue_putAddress, pushAck_eq]
  refine ⟨h.mem, rfl, ?_, h.repeatNext, rfl, rfl, rfl⟩
  simp only [h.rx, h.mem]

theorem Storing.data {addr n : ℕ} (h : Storing m q r addr n e) {l : List UInt8} (hl : l.length = n)
    (hne : l ≠ []) :
    At (m.writeAll addr l) (enqueueAll q (ackBytes P (m.writeAll addr l))) r (e.feed P l) := by
  rw [feed_stsData h.state (by rw [h.acc, h.need, hl, List.length_nil, Nat.zero_add]) hne,
    pushAck_eq, h.acc, List.nil_append]
  refine ⟨?_, rfl, ?_, h.repeatNext⟩
  · simp only [h.mem, h.curAddr]
  · simp only [h.mem, h.curAddr, h.rx]

theorem At.stPtr (h : At m q r e) (a24 : Bool) (address : ℕ) :
    Aimed m (enqueueAll q (ackBytes P m)) r (wireAddress a24 address) (e.feed P
      ([phySync, updiSt ||| ptrAddress ||| (if a24 then data24 else data16)] ++
        putAddress a24 address)) := by
  rw [List.cons_append, List.cons_append, List.nil_append, feed_frame h.state, feedOpcode_stPtr,
    feed_stptrAddr rfl (addressed a24 address) (putAddress_ne_nil a24 address), List.nil_append,
    leValue_putAddress, pushAck_eq]
  refine ⟨⟨h.mem, rfl, ?_, h.repeatNext⟩, rfl⟩
  simp only [h.rx, h.mem]

def cells (m : EmuMem) (p n : ℕ) : List UInt8 := (List.range n).map fun i ↦ m.memRead (p + i)

theorem Aimed.load {p : ℕ} (h : Aimed m q r p e) (d16 : Bool)
    (hp : p + (r + 1) * (if d16 then 2 else 1) < 2 ^ 32) :
    At m (enqueueAll q (cells m p ((r + 1) * (if d16 then 2 else 1)))) 0
      (e.feed P [phySync, updiLd ||| ptrInc ||| (if d16 then data16 else data8)]) := by
  have ho : ({ e with state := .opcode } : UpdiEmu).feedOpcode
      (updiLd ||| ptrInc ||| (if d16 then data16 else data8)) =
      { ldLoop ((e.repeatNext + 1) * (if d16 then 2 else 1))
          { e with state := .opcode, repeatNext := 0 } with state := .idle } := by
    cases d16 <;> rfl
  rw [feed_frame h.state, ho, feed_nil, h.repeatNext, ldLoop_eq _ _ (by rwa [h.ptr])]
  refine ⟨h.mem, rfl, ?_, rfl⟩
  simp only [h.rx, h.mem, h.ptr, cells]

def sibBytes (m : EmuMem) (n : ℕ) : List UInt8 := (List.range n).map fun i ↦ m.sib.getD i 0

def sibLength (size : ℕ) : ℕ := if 32 ≤ size then 32 else if 16 ≤ size then 16 else 8

theorem At.sib (h : At m q r e) (size : ℕ) :
    At m (enqueueAll q (sibBytes m (sibLength size))) r
      (e.feed P [phySync, updiKey ||| keySib ||| sibSelector size]) := by
  have ho : ({ e with state := .opcode } : UpdiEmu).feedOpcode
      (updiKey ||| keySib ||| sibSelector size) =
      { ({ e with state := .opcode } : UpdiEmu).rxPushAll (sibBytes e.mem (sibLength size)) with
        state := .idle } := by
    unfold sibSelector sibLength
    split_ifs <;> rfl
  rw [feed_frame h.state, ho, feed_nil, rxPushAll_eq]
  refine ⟨h.mem, rfl, ?_, h.repeatNext⟩
  simp only [h.rx, h.mem]

theorem At.key (h : At m q r e) {k : List UInt8} (hk : k.length = 8) :
    At (m.applyKey k) q r
      ((e.feed P [phySync, updiKey ||| keyKey ||| key64]).feed P k.reverse) := by
  have ho : e.feed P [phySync, updiKey ||| keyKey ||| key64] =
      { e with need := 8, acc := [], state := .key } := by
    rw [feed_frame h.state]
    rfl
  have hlen : ([] : List UInt8).length + k.reverse.length = 8 := by
    rw [List.length_reverse, hk, List.length_nil]
  have hne : k.reverse ≠ [] := by
    intro hn
    rw [hn, List.length_nil] at hlen
    omega
  rw [ho, feed_key rfl hlen rfl hne, List.nil_append, List.reverse_reverse]
  exact ⟨congrArg (EmuMem.applyKey · k) h.mem, rfl, h.rx, h.repeatNext⟩

/-- The target is inside a byte block with `n` bytes still to come. -/
structure Streaming (m : EmuMem) (q : List UInt8) (p n : ℕ) (e : UpdiEmu) : Prop where
  mem : e.mem = m
  state : e.state = .stinc8
  rx : e.rx = q
  repeatNext : e.repeatNext = 0
  ptr : e.ptr = p
  incLeft : e.incLeft = n

/-- A byte block that expects `n` more bytes is over when there are none. -/
def StreamAt (m : EmuMem) (q : List UInt8) (p n : ℕ) (e : UpdiEmu) : Prop :=
  if n = 0 then At m q 0 e else Streaming m q p n e

theorem Streaming.byte {p n : ℕ} (h : Streaming m q p (n + 1) e) (hp : p + 1 < 2 ^ 32) (b : UInt8) :
    StreamAt (m.memWrite p b) (enqueueAll q (ackBytes P (m.memWrite p b))) (p + 1) n
      (e.feed P [b]) := by
  have hb : e.feed P [b] =
      (fun e : UpdiEmu ↦ if e.incLeft = 0 then { e with state := .idle } else e)
      (({ e with
        mem := m.memWrite p b, ptr := p + 1, incLeft := n } : UpdiEmu).pushAck P) := by
    rw [feed_cons, feed_nil]
    unfold feedByte
    simp only [h.state, h.mem, h.ptr, h.incLeft, Nat.add_sub_cancel, Nat.mod_eq_of_lt hp]
  rw [hb, pushAck_eq]
  unfold StreamAt
  split_ifs with hn
  · simp only [hn, if_true]
    exact ⟨rfl, rfl, by rw [h.rx], h.repeatNext⟩
  · simp only [hn, if_false]
    exact ⟨rfl, h.state, by rw [h.rx], h.repeatNext, rfl, rfl⟩

theorem Aimed.stream {p : ℕ} (h : Aimed m q r p e) (hp : p + 1 < 2 ^ 32) (b : UInt8) :
    StreamAt (m.memWrite p b) (enqueueAll q (ackBytes P (m.memWrite p b))) (p + 1) r
      (e.feed P [phySync, updiSt ||| ptrInc ||| data8, b]) := by
  have ho : ({ e with state := .opcode } : UpdiEmu).feedOpcode (updiSt ||| ptrInc ||| data8) =
      { e with repeatNext := 0, incLeft := e.repeatNext + 1, state := .stinc8 } := rfl
  have hs : Streaming m q p (r + 1)
      { e with repeatNext := 0, incLeft := e.repeatNext + 1, state := .stinc8 } :=
    ⟨h.mem, rfl, h.rx, rfl, h.ptr, congrArg (· + 1) h.repeatNext⟩
  rw [feed_frame h.state, ho]
  exact hs.byte hp b

@[simp] theorem memWrite_cs (m : EmuMem) (addr : ℕ) (b : UInt8) :
    (m.memWrite addr b).cs = m.cs := by
  unfold EmuMem.memWrite EmuMem.eraseEffect EmuMem.fuseEffect EmuMem.setIo EmuMem.setFlash
  split_ifs <;> rfl

@[simp] theorem writeAll_cs (l : List UInt8) (m : EmuMem) (addr : ℕ) :
    (m.writeAll addr l).cs = m.cs := by
  induction l generalizing m addr with
  | nil => rfl
  | cons b l ih => rw [EmuMem.writeAll, ih, memWrite_cs]

theorem setIo_setCs (m : EmuMem) (a v : UInt8) (addr : ℕ) (b : UInt8) :
    (m.setCs a v).setIo addr b = (m.setIo addr b).setCs a v := by
  unfold EmuMem.setIo
  split_ifs <;> rfl

theorem eraseEffect_setCs (m : EmuMem) (a v b : UInt8) :
    (m.setCs a v).eraseEffect b = (m.eraseEffect b).setCs a v := by
  unfold EmuMem.eraseEffect
  split_ifs with h h' h'
  · rfl
  · exact absurd h h'
  · exact absurd h' h
  · rfl

theorem fuseEffect_setCs (m : EmuMem) (a v b : UInt8) :
    (m.setCs a v).fuseEffect b = (m.fuseEffect b).setCs a v := by
  unfold EmuMem.fuseEffect
  split_ifs with h h' h'
  · exact setIo_setCs m a v _ _
  · exact absurd h h'
  · exact absurd h' h
  · rfl

theorem memWrite_setCs (m : EmuMem) (a v : UInt8) (addr : ℕ) (b : UInt8) :
    (m.setCs a v).memWrite addr b = (m.memWrite addr b).setCs a v := by
  unfold EmuMem.memWrite
  rw [eraseEffect_setCs, fuseEffect_setCs, setIo_setCs, setIo_setCs]
  by_cases hf : m.InFlash addr
  · rw [if_pos hf]
    exact if_pos hf
  · by_cases hc : addr = m.nvmctrlBase + m.ctrlaOffset
    · rw [if_neg hf, if_pos hc]
      exact (if_neg hf).trans (if_pos hc)
    · rw [if_neg hf, if_neg hc]
      exact (if_neg hf).trans (if_neg hc)

theorem writeAll_setCs (a v : UInt8) (l : List UInt8) (m : EmuMem) (addr : ℕ) :
    (m.setCs a v).writeAll addr l = (m.writeAll addr l).setCs a v := by
  induction l generalizing m addr with
  | nil => rfl
  | cons b l ih => rw [EmuMem.writeAll, EmuMem.writeAll, memWrite_setCs, ih]

@[simp] theorem setCs_self (m : EmuMem) (a v : UInt8) : (m.setCs a v).cs a = v :=
  Function.update_self ..

theorem setCs_setCs (m : EmuMem) (a v v' : UInt8) : (m.setCs a v).setCs a v' = m.setCs a v' := by
  simp only [EmuMem.setCs, Function.update_idem]

/-- A store to any control register but the reset request only sets it. -/
theorem applyStcs_of_ne (m : EmuMem) {a : UInt8} (h : a &&& 0x0F ≠ asiResetReq) (v : UInt8) :
    m.applyStcs (a &&& 0x0F) v = m.setCs (a &&& 0x0F) v := by
  have ha : (a &&& 0x0F) &&& 0x0F = a &&& 0x0F := by rw [UInt8.and_assoc]; rfl
  unfold EmuMem.applyStcs
  simp only [ha, h, false_and, if_false]

theorem writeAll_append (l l' : List UInt8) (m : EmuMem) (addr : ℕ) :
    m.writeAll addr (l ++ l') = (m.writeAll addr l).writeAll (addr + l.length) l' := by
  induction l generalizing m addr with
  | nil => rfl
  | cons b l ih =>
    rw [List.cons_append, EmuMem.writeAll, ih, List.length_cons, Nat.add_assoc, Nat.add_comm 1]
    rfl

/-- The bytes of a word block get no answer while the target is told not to give any. -/
theorem feed_stinc16 (l : List UInt8) (e : UpdiEmu) (hs : e.state = .stinc16)
    (hw : P.word (e.mem.cs csCtrla) = false) (hl : e.incLeft = l.length) (hne : l ≠ [])
    (hp : e.ptr + l.length < 2 ^ 32) (hr : e.repeatNext = 0) :
    At (e.mem.writeAll e.ptr l) e.rx 0 (e.feed P l) := by
  induction l generalizing e with
  | nil => exact absurd rfl hne
  | cons b l ih =>
    simp only [List.length_cons] at hl hp
    have hptr : (e.ptr + 1) % 2 ^ 32 = e.ptr + 1 := Nat.mod_eq_of_lt (by omega)
    have hb : e.feedByte P b =
        (if l.length = 0 then { e with
            mem := e.mem.memWrite e.ptr b, ptr := e.ptr + 1, incLeft := l.length, state := .idle }
          else { e with
            mem := e.mem.memWrite e.ptr b, ptr := e.ptr + 1, incLeft := l.length }) := by
      unfold feedByte
      simp only [hs, hl, hptr, Nat.add_sub_cancel, memWrite_cs, hw, Bool.false_eq_true, and_false,
        if_false]
    rw [feed_cons, hb]
    split_ifs with h0
    · rw [List.length_eq_zero_iff] at h0
      subst h0
      exact ⟨rfl, rfl, rfl, hr⟩
    · exact ih { e with
          mem := e.mem.memWrite e.ptr b, ptr := e.ptr + 1, incLeft := l.length } hs
        (by simpa only [memWrite_cs] using hw) rfl
        (fun h ↦ h0 (List.length_eq_zero_iff.mpr h)) (by simp only; omega) hr

theorem feed_inBlock (l : List UInt8) (e : UpdiEmu) (hs : e.state = .stinc16)
    (hw : P.word (e.mem.cs csCtrla) = false) (hl : l.length < e.incLeft)
    (hp : e.ptr + l.length < 2 ^ 32) : e.feed P l = { e with
      mem := e.mem.writeAll e.ptr l, ptr := e.ptr + l.length, incLeft :=
        e.incLeft - l.length } := by
  induction l generalizing e with
  | nil => rfl
  | cons b l ih =>
    simp only [List.length_cons] at hl hp
    have hptr : (e.ptr + 1) % 2 ^ 32 = e.ptr + 1 := Nat.mod_eq_of_lt (by omega)
    have hb : e.feedByte P b =
        { e with mem := e.mem.memWrite e.ptr b, ptr := e.ptr + 1, incLeft := e.incLeft - 1 } := by
      unfold feedByte
      simp only [hs, hptr, memWrite_cs, hw, Bool.false_eq_true, and_false, if_false]
      exact if_neg (by omega)
    have hrest := ih { e with
        mem := e.mem.memWrite e.ptr b, ptr := e.ptr + 1, incLeft := e.incLeft - 1 } hs
      (by simpa only [memWrite_cs] using hw) (by simp only; omega) (by simp only; omega)
    rw [feed_cons, hb, hrest, EmuMem.writeAll, List.length_cons]
    simp only [Nat.add_assoc, Nat.add_comm 1, Nat.sub_sub]

theorem Aimed.block {p : ℕ} (h : Aimed m q r p e) (hw : P.word (m.cs csCtrla) = false)
    {l : List UInt8} (hl : l.length = (r + 1) * 2) (hp : p + l.length < 2 ^ 32) :
    At (m.writeAll p l) q 0
      ((e.feed P [phySync, updiSt ||| ptrInc ||| data16]).feed P l) := by
  have ho : e.feed P [phySync, updiSt ||| ptrInc ||| data16] =
      { e with repeatNext := 0, incLeft := (e.repeatNext + 1) * 2, state := .stinc16 } := by
    rw [feed_frame h.state]
    rfl
  have hne : l ≠ [] := by
    rintro rfl
    simp only [List.length_nil] at hl
    omega
  have hb := feed_stinc16 (P := P) l (e.feed P [phySync, updiSt ||| ptrInc ||| data16])
    (by rw [ho]) (by simpa only [ho, h.mem] using hw)
      (by simpa only [ho, h.repeatNext] using hl.symm)
    hne (by simpa only [ho, h.ptr] using hp) (by rw [ho])
  simpa only [ho, h.mem, h.ptr, h.rx] using hb

end UpdiEmu

end UpdiProgrammer.HostTest
