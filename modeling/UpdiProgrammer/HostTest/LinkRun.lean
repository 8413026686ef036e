import UpdiProgrammer.HostTest.Frames

namespace UpdiProgrammer.HostTest

open Updi UpdiLink Library.Program UpdiEmu

/-- A link of the given address size, with a target behind it that satisfies `T`. -/
structure Linked (a24 : Bool) (T : UpdiEmu → Prop) (s : LinkState UpdiEmu) : Prop where
  addr24 : (s.link.addressBytes == 3) = a24
  target : T s.ctx

/-- The two sides are in step: the target is between instructions with
memory `m`, has no answer left to read and no repeat pending. -/
abbrev InStep (a24 : Bool) (m : EmuMem) : LinkState UpdiEmu → Prop := Linked a24 (At m [] 0)

/-- Reading answers changes the queue and nothing else that `T` speaks of. -/
def Drains (T : List UInt8 → UpdiEmu → Prop) : Prop :=
  ∀ q e, T q e → e.rx = q ∧ ∀ n, T (q.drop n) { e with rx := q.drop n }

variable {P : AckPolicy} {a24 : Bool} {m : EmuMem} {r p n addr : ℕ} {s : LinkState UpdiEmu}

theorem drains_at : Drains fun q ↦ At m q r :=
  fun _ _ h ↦ ⟨h.rx, fun _ ↦ ⟨h.mem, h.state, rfl, h.repeatNext⟩⟩

theorem drains_aimed : Drains fun q ↦ Aimed m q r p :=
  fun _ _ h ↦ ⟨h.rx, fun _ ↦ ⟨⟨h.mem, h.state, rfl, h.repeatNext⟩, h.ptr⟩⟩

theorem drains_storing : Drains fun q ↦ Storing m q r addr n :=
  fun _ _ h ↦ ⟨h.rx, fun _ ↦ ⟨h.mem, h.state, rfl, h.repeatNext, h.curAddr, h.acc, h.need⟩⟩

theorem drains_streamAt : Drains fun q ↦ StreamAt m q p n := by
  intro q e h
  unfold StreamAt at h ⊢
  split_ifs at h ⊢ with hn
  · exact drains_at q e h
  · exact ⟨h.rx, fun _ ↦ ⟨h.mem, h.state, rfl, h.repeatNext, h.ptr, h.incLeft⟩⟩

theorem send_returns {T T' : UpdiEmu → Prop} {data : List UInt8}
    (hT : ∀ e, T e → T' (e.feed P data)) (h : Linked a24 T s) :
    Returns (UpdiLink.send (emuTransport P) data) s () (Linked a24 T') :=
  ⟨⟨s.link, s.ctx.feed P data⟩, rfl, h.addr24, hT _ h.target⟩

theorem recvRaw_returns {T : List UInt8 → UpdiEmu → Prop} (hd : Drains T) {q : List UInt8}
    (h : Linked a24 (T q) s) (len : ℕ) :
    Returns (recvRaw (emuTransport P) len) s (q.take len) (Linked a24 (T (q.drop len))) := by
  obtain ⟨hq, hT⟩ := hd q s.ctx h.target
  refine ⟨⟨s.link, { s.ctx with rx := q.drop len }⟩, ?_, h.addr24, hT len⟩
  simp only [recvRaw, emuTransport, hq]

theorem recvByte_returns {T : List UInt8 → UpdiEmu → Prop} (hd : Drains T) {b : UInt8}
    {q : List UInt8} (h : Linked a24 (T (b :: q)) s) :
    Returns (recvByte (emuTransport P)) s b (Linked a24 (T q)) :=
  (recvRaw_returns hd h 1).bind fun _ h ↦ .pure h

theorem recvAck_returns {T : List UInt8 → UpdiEmu → Prop} (hd : Drains T) {q : List UInt8}
    (h : Linked a24 (T (phyAck :: q)) s) :
    Returns (recvAck (emuTransport P)) s () (Linked a24 (T q)) :=
  (recvRaw_returns hd h 1).bind fun _ h ↦ .pure h

theorem recvAll_returns {T : List UInt8 → UpdiEmu → Prop} (hd : Drains T) {q : List UInt8}
    (h : Linked a24 (T q) s) :
    Returns (recvAll (emuTransport P) q.length) s q (Linked a24 (T [])) := by
  refine (recvRaw_returns hd h q.length).bind fun s h ↦ ?_
  rw [List.take_length, List.drop_length] at *
  rw [if_pos rfl]
  exact .pure h

theorem ackBytes_of (hP : P.store (m.cs csCtrla) = true) : ackBytes P m = [phyAck] := if_pos hP

theorem ldcs_returns (h : Linked a24 (At m [] r) s) (a : UInt8) :
    Returns (ldcs (emuTransport P) a) s (m.cs (a &&& 0x0F)) (Linked a24 (At m [] r)) :=
  (send_returns (fun _ he ↦ he.ldcs a) h).bind fun _ h ↦ recvByte_returns drains_at h

theorem stcs_returns {q : List UInt8} (h : Linked a24 (At m q r) s) (a v : UInt8) :
    Returns (stcs (emuTransport P) a v) s () (Linked a24 (At (m.applyStcs (a &&& 0x0F) v) q r)) :=
  send_returns (fun _ he ↦ he.stcs a v) h

theorem setAckEnabled_returns {T : UpdiEmu → Prop} (h : Linked a24 T s) (b : Bool) :
    Returns (setAckEnabled b) s () (Linked a24 T) := .modify ⟨h.addr24, h.target⟩

theorem addr24_returns {T : UpdiEmu → Prop} (h : Linked a24 T s) :
    Returns addr24 s a24 (Linked a24 T) := by
  obtain rfl := h.addr24
  exact .read h

theorem ldByte_returns (h : InStep a24 m s) (address : ℕ) :
    Returns (ldByte (emuTransport P) address) s (m.memRead (wireAddress a24 address))
      (InStep a24 m) :=
  (addr24_returns h).bind fun _ h ↦ (send_returns (fun _ he ↦ he.lds a24 address) h).bind fun _ h ↦
    recvByte_returns drains_at h

section Acked

variable (hP : P.store (m.cs csCtrla) = true)
include hP

theorem stDataPhase_returns {l : List UInt8} (hl : l.length = n) (hne : l ≠ [])
    (h : Linked a24 (Storing m [phyAck] 0 addr n) s) :
    Returns (stDataPhase (emuTransport P) l) s () (InStep a24 (m.writeAll addr l)) := by
  refine (recvAck_returns drains_storing h).bind fun s h ↦ ?_
  refine (send_returns (fun e he ↦ he.data hl hne) h).bind fun s h ↦ ?_
  rw [ackBytes_of (by rwa [writeAll_cs])] at h
  exact recvAck_returns drains_at h

theorem stByte_returns (h : InStep a24 m s) (address : ℕ) (value : UInt8) :
    Returns (stByte (emuTransport P) address value) s ()
      (InStep a24 (m.memWrite (wireAddress a24 address) value)) := by
  refine (addr24_returns h).bind fun s h ↦ ?_
  refine (send_returns (fun e he ↦ he.sts a24 address false) h).bind fun s h ↦ ?_
  rw [ackBytes_of hP] at h
  exact stDataPhase_returns hP rfl (List.cons_ne_nil _ _) h

theorem st16_returns (h : InStep a24 m s) (address : ℕ) (value : UInt16) :
    Returns (st16 (emuTransport P) address value) s ()
      (InStep a24 (m.writeAll (wireAddress a24 address) [value.toUInt8,
        (value >>> 8).toUInt8])) := by
  refine (addr24_returns h).bind fun s h ↦ ?_
  refine (send_returns (fun e he ↦ he.sts a24 address true) h).bind fun s h ↦ ?_
  rw [ackBytes_of hP] at h
  exact stDataPhase_returns hP rfl (List.cons_ne_nil _ _) h

theorem stPtr_returns (h : InStep a24 m s) (address : ℕ) :
    Returns (stPtr (emuTransport P) address) s ()
      (Linked a24 (Aimed m [] 0 (wireAddress a24 address))) := by
  refine (addr24_returns h).bind fun s h ↦ ?_
  refine (send_returns (fun e he ↦ he.stPtr a24 address) h).bind fun s h ↦ ?_
  rw [ackBytes_of hP] at h
  exact recvAck_returns drains_aimed h

end Acked

theorem repeatCount_returns {count : ℕ} {q : List UInt8} (h : Linked a24 (Aimed m q r p) s)
    (h1 : 1 ≤ count) (hc : count ≤ maxRepeatSize) :
    Returns (repeatCount (emuTransport P) count) s () (Linked a24 (Aimed m q (count - 1) p)) := by
  have hmax : count ≤ 256 := hc
  have hn : (UInt8.ofNat (count - 1)).toNat = count - 1 := by
    rw [UInt8.toNat_ofNat']
    omega
  rw [repeatCount, if_neg (by omega)]
  refine send_returns (fun e he ↦ ?_) h
  have h' := he.send_repeat (P := P) (UInt8.ofNat (count - 1))
  rwa [hn] at h'

@[simp] theorem cells_length (m : EmuMem) (p n : ℕ) : (cells m p n).length = n := by
  rw [cells, List.length_map, List.length_range]

theorem load_returns (h : Linked a24 (Aimed m [] r p) s) (d16 : Bool)
    (hp : p + (r + 1) * (if d16 then 2 else 1) < 2 ^ 32)
    (hr : (r + 1) * (if d16 then 2 else 1) < emuRxCap) :
    Returns (do
        UpdiLink.send (emuTransport P) [phySync, updiLd ||| ptrInc |||
          (if d16 then data16 else data8)]
        recvAll (emuTransport P) ((r + 1) * (if d16 then 2 else 1))) s
      (cells m p ((r + 1) * (if d16 then 2 else 1))) (InStep a24 m) := by
  refine (send_returns (fun e he ↦ he.load d16 hp) h).bind fun s h ↦ ?_
  rw [enqueueAll_of_lt (by simpa only [List.length_nil, cells_length, Nat.zero_add] using hr),
    List.nil_append] at h
  simpa only [cells_length] using recvAll_returns (P := P) drains_at h

theorem wireAddress_lt (a24 : Bool) (address : ℕ) : wireAddress a24 address < 2 ^ 24 := by
  unfold wireAddress addressSpace
  cases a24 <;> simp only [Bool.false_eq_true, if_false, if_true] <;> omega

theorem readData_returns (hP : P.store (m.cs csCtrla) = true) (h : InStep a24 m s) (address : ℕ)
    {size : ℕ} (h1 : 1 ≤ size) (hs : size ≤ maxRepeatSize) :
    Returns (readData (emuTransport P) address size) s (cells m (wireAddress a24 address) size)
      (InStep a24 m) := by
  have hmax : size ≤ 256 := hs
  have hw := wireAddress_lt a24 address
  have hload : ∀ s, Linked a24 (Aimed m [] (size - 1) (wireAddress a24 address)) s →
      Returns (ldPtrInc (emuTransport P) size) s (cells m (wireAddress a24 address) size)
        (InStep a24 m) := by
    intro s h
    have hl := load_returns (P := P) h false (by simp only [Bool.false_eq_true, if_false]; omega)
      (by simp only [Bool.false_eq_true, if_false, emuRxCap]; omega)
    simp only [Bool.false_eq_true, if_false, Nat.mul_one, Nat.sub_add_cancel h1] at hl
    exact hl
  rw [readData, if_neg (by omega)]
  refine (stPtr_returns hP h address).bind fun s h ↦ ?_
  by_cases h2 : 1 < size
  · simp only [if_pos h2]
    exact (repeatCount_returns h h1 hs).bind fun s h ↦ hload s h
  · obtain rfl : size = 1 := by omega
    exact hload s h

theorem readDataWords_returns (hP : P.store (m.cs csCtrla) = true) (h : InStep a24 m s)
    (address : ℕ) {words : ℕ} (h1 : 1 ≤ words) (hw : words ≤ maxRepeatSize / 2) :
    Returns (readDataWords (emuTransport P) address words) s
      (cells m (wireAddress a24 address) (2 * words)) (InStep a24 m) := by
  have hmax : words ≤ 128 := hw
  have hlt := wireAddress_lt a24 address
  have hload : ∀ s, Linked a24 (Aimed m [] (words - 1) (wireAddress a24 address)) s →
      Returns (ldPtrInc16 (emuTransport P) words) s
        (cells m (wireAddress a24 address) (2 * words)) (InStep a24 m) := by
    intro s h
    have hl := load_returns (P := P) h true (by simp only [if_true]; omega)
      (by simp only [if_true, emuRxCap]; omega)
    simp only [if_true, Nat.sub_add_cancel h1, Nat.mul_comm words] at hl
    exact hl
  rw [readDataWords, if_neg (by omega)]
  refine (stPtr_returns hP h address).bind fun s h ↦ ?_
  by_cases h2 : 1 < words
  · simp only [if_pos h2]
    exact (repeatCount_returns h h1 (by omega)).bind fun s h ↦ hload s h
  · obtain rfl : words = 1 := by omega
    exact hload s h

theorem sibBytes_length (m : EmuMem) (n : ℕ) : (sibBytes m n).length = n := by
  rw [sibBytes, List.length_map, List.length_range]

/-- A SIB read takes the first `size` bytes of an answer of 8, 16 or 32,
and leaves the others unread. -/
theorem readSib_returns (h : InStep a24 m s) {size : ℕ} (h1 : 1 ≤ size) :
    Returns (readSib (emuTransport P) size) s ((sibBytes m (sibLength size)).take size)
      (Linked a24 (At m ((sibBytes m (sibLength size)).drop size) 0)) := by
  have hlen : sibLength size ≤ 32 ∧ 8 ≤ sibLength size := by
    unfold sibLength
    split_ifs <;> omega
  refine (send_returns (fun e he ↦ he.sib size) h).bind fun s h ↦ ?_
  rw [enqueueAll_of_lt (by rw [sibBytes_length, List.length_nil, emuRxCap]; omega),
    List.nil_append] at h
  refine (recvRaw_returns drains_at h size).bind fun s h ↦ ?_
  rw [if_pos (by rw [List.length_take, sibBytes_length]; omega)]
  exact .pure h

theorem sendKey_returns {q : List UInt8} (h : Linked a24 (At m q r) s) {k : List UInt8}
    (hk : k.length = 8) :
    Returns (sendKey (emuTransport P) key64 k) s () (Linked a24 (At (m.applyKey k) q r)) := by
  have hn : ¬k.length ≠ 8 <<< key64.toNat := not_not.mpr hk
  rw [sendKey, if_neg hn, if_neg (by omega)]
  have hT : ∀ e, At m q r e → At (m.applyKey k) q r
      ((e.feed P [phySync, updiKey ||| keyKey ||| key64]).feed P k.reverse) :=
    fun e he ↦ he.key hk
  refine ⟨_, rfl, h.addr24, hT _ h.target⟩

section Acked

variable (hP : P.store (m.cs csCtrla) = true)
include hP

theorem streamBytes_returns (l : List UInt8) (h : Linked a24 (StreamAt m [] p l.length) s)
    (hp : p + l.length < 2 ^ 32) :
    Returns (streamBytes (emuTransport P) l) s () (InStep a24 (m.writeAll p l)) := by
  induction l generalizing m p s with
  | nil => exact .pure h
  | cons b l ih =>
    simp only [List.length_cons] at h hp
    have hT : ∀ e, StreamAt m [] p (l.length + 1) e →
        StreamAt (m.memWrite p b) [phyAck] (p + 1) l.length (e.feed P [b]) := by
      intro e he
      have he' : Streaming m [] p (l.length + 1) e := he
      have hb := he'.byte (P := P) (by omega) b
      rwa [ackBytes_of (by rwa [memWrite_cs])] at hb
    refine (send_returns hT h).bind fun s h ↦ ?_
    refine (recvAck_returns drains_streamAt h).bind fun s h ↦ ?_
    exact ih (by rwa [memWrite_cs]) h (by omega)

theorem stPtrInc_returns {l : List UInt8} (hl : l.length = r + 1)
    (h : Linked a24 (Aimed m [] r p) s) (hp : p + l.length < 2 ^ 32) :
    Returns (stPtrInc (emuTransport P) l) s () (InStep a24 (m.writeAll p l)) := by
  cases l with
  | nil => simp only [List.length_nil] at hl; omega
  | cons b l =>
    simp only [List.length_cons, Nat.add_right_cancel_iff] at hl hp
    subst hl
    have hT : ∀ e, Aimed m [] l.length p e →
        StreamAt (m.memWrite p b) [phyAck] (p + 1) l.length
          (e.feed P [phySync, updiSt ||| ptrInc ||| data8, b]) := by
      intro e he
      have hb := he.stream (P := P) (by omega) b
      rwa [ackBytes_of (by rwa [memWrite_cs])] at hb
    refine (send_returns hT h).bind fun s h ↦ ?_
    refine (recvAck_returns drains_streamAt h).bind fun s h ↦ ?_
    exact streamBytes_returns (by rwa [memWrite_cs]) l h (by omega)

end Acked

/-- What a long write leaves in memory: its chunks one after the other,
each from the address that its pointer frame carries. -/
def writeChunked (a24 : Bool) : (fuel address : ℕ) → List UInt8 → EmuMem → EmuMem
  | 0, _, _, m => m
  | fuel + 1, address, data, m =>
    if data.length = 0 then m
    else
      let chunk := min data.length maxRepeatSize
      writeChunked a24 fuel (address + chunk) (data.drop chunk)
        (m.writeAll (wireAddress a24 address) (data.take chunk))

theorem writeChunked_cs (fuel address : ℕ) (data : List UInt8) (m : EmuMem) :
    (writeChunked a24 fuel address data m).cs = m.cs := by
  induction fuel generalizing m address data with
  | zero => rfl
  | succ fuel ih =>
    rw [writeChunked]
    split_ifs
    · rfl
    · rw [ih, writeAll_cs]

theorem wireAddress_of_lt {address : ℕ} (h : address < addressSpace a24) :
    wireAddress a24 address = address := Nat.mod_eq_of_lt h

theorem writeChunked_eq {fuel address : ℕ} {data : List UInt8} (m : EmuMem)
    (hf : data.length ≤ fuel) (h : address + data.length ≤ addressSpace a24) :
    writeChunked a24 fuel address data m = m.writeAll address data := by
  induction fuel generalizing m address data with
  | zero =>
    obtain rfl : data = [] := List.length_eq_zero_iff.mp (by omega)
    rfl
  | succ fuel ih =>
    rw [writeChunked]
    split_ifs with h0
    · obtain rfl : data = [] := List.length_eq_zero_iff.mp h0
      rfl
    · have hmax : maxRepeatSize = 256 := rfl
      have hsplit := writeAll_append (data.take (min data.length maxRepeatSize))
        (data.drop (min data.length maxRepeatSize)) m address
      rw [List.take_append_drop, List.length_take, Nat.min_assoc, Nat.min_comm maxRepeatSize,
        ← Nat.min_assoc, Nat.min_self] at hsplit
      rw [ih _ (by rw [List.length_drop]; omega) (by rw [List.length_drop]; omega), hsplit,
        wireAddress_of_lt (by omega)]

theorem writeChunks_returns (hP : P.store (m.cs csCtrla) = true) (fuel address : ℕ)
    (data : List UInt8) (h : InStep a24 m s) :
    Returns (writeChunks (emuTransport P) fuel address data) s ()
      (InStep a24 (writeChunked a24 fuel address data m)) := by
  induction fuel generalizing m s address data with
  | zero => exact .pure h
  | succ fuel ih =>
    rw [writeChunks, writeChunked]
    split_ifs with h0
    · exact .pure h
    · have hmax : maxRepeatSize = 256 := rfl
      have hw := wireAddress_lt a24 address
      have hlen : (data.take (min data.length maxRepeatSize)).length =
          min data.length maxRepeatSize - 1 + 1 := by
        rw [List.length_take]
        omega
      refine (stPtr_returns hP h address).bind fun s h ↦ ?_
      refine (repeatCount_returns h (by omega) (by omega)).bind fun s h ↦ ?_
      refine (stPtrInc_returns hP hlen h (by omega)).bind fun s h ↦ ?_
      exact ih (by rwa [writeAll_cs]) _ _ h

/-- A word block is written with the answers of the target turned off, and
turns them on again. -/
theorem stPtrInc16Block_returns {l : List UInt8} (hl : l.length = (r + 1) * 2)
    (h : Linked a24 (Aimed m [] r p) s) (hp : p + l.length < 2 ^ 32) :
    Returns (stPtrInc16Block (emuTransport P) l) s ()
      (InStep a24 ((m.writeAll p l).setCs csCtrla ctrlaIbdly)) := by
  have hne : csCtrla &&& 0x0F ≠ asiResetReq := by decide
  have hq : ((m.setCs csCtrla (ctrlaIbdly ||| ctrlaRsd)).writeAll p l).setCs csCtrla ctrlaIbdly =
      (m.writeAll p l).setCs csCtrla ctrlaIbdly := by
    rw [writeAll_setCs, setCs_setCs]
  have hquiet : Returns (disableAck (emuTransport P)) s ()
      (Linked a24 (Aimed (m.setCs csCtrla (ctrlaIbdly ||| ctrlaRsd)) [] r p)) := by
    have hs := send_returns (P := P)
      (fun e he ↦ Aimed.stcs he csCtrla (ctrlaIbdly ||| ctrlaRsd)) h
    rw [applyStcs_of_ne m hne] at hs
    exact hs.bind fun s h ↦ setAckEnabled_returns h false
  have hopcode : ∀ s, Linked a24 (Aimed (m.setCs csCtrla (ctrlaIbdly ||| ctrlaRsd)) [] r p) s →
      Returns (UpdiLink.send (emuTransport P) [phySync, updiSt ||| ptrInc ||| data16]) s ()
        (Linked a24 fun e ↦ At ((m.setCs csCtrla (ctrlaIbdly ||| ctrlaRsd)).writeAll p l) [] 0
          (e.feed P l)) :=
    fun s h ↦ send_returns
      (fun e he ↦ he.block ((congrArg P.word (setCs_self ..)).trans P.word_rsd) hl hp) h
  have hloud : ∀ s, InStep a24 ((m.setCs csCtrla (ctrlaIbdly ||| ctrlaRsd)).writeAll p l) s →
      Returns (enableAck (emuTransport P)) s ()
        (InStep a24 ((m.writeAll p l).setCs csCtrla ctrlaIbdly)) := by
    intro s h
    have hs := stcs_returns (P := P) h csCtrla ctrlaIbdly
    rw [applyStcs_of_ne _ hne] at hs
    refine hs.bind fun s h ↦ ?_
    rw [← hq]
    exact setAckEnabled_returns h true
  refine hquiet.bind fun s h ↦ ?_
  refine (hopcode s h).bind fun s h ↦ ?_
  exact (send_returns (fun e he ↦ he) h).bind hloud

theorem word_low (lo hi : UInt8) : (lo.toUInt16 ||| (hi.toUInt16 <<< 8)).toUInt8 = lo := by
  apply UInt8.toBitVec_inj.mp
  simp

theorem word_high (lo hi : UInt8) :
    ((lo.toUInt16 ||| (hi.toUInt16 <<< 8)) >>> 8).toUInt8 = hi := by
  apply UInt8.toBitVec_inj.mp
  simp
  ext i hi
  have h16 : 8 + i < 16 := by omega
  have h8 : ¬8 + i < 8 := by omega
  have hi16 : i < 16 := by omega
  simp [h16, hi16, BitVec.getLsbD_eq_getElem hi]

/-- A word write ends with the same memory as the byte stores it stands
for, and with CTRLA rewritten when it went through the block. -/
theorem writeDataWords_returns (hP : P.store (m.cs csCtrla) = true) (h : InStep a24 m s)
    (address : ℕ) {data : List UInt8} (h0 : data.length ≠ 0) (h2 : data.length % 2 = 0)
    (hmax : data.length ≤ maxRepeatSize * 2) :
    ∃ m', (m' = m.writeAll (wireAddress a24 address) data ∨
        m' = (m.writeAll (wireAddress a24 address) data).setCs csCtrla ctrlaIbdly) ∧
      Returns (writeDataWords (emuTransport P) address data) s () (InStep a24 m') := by
  unfold writeDataWords
  rw [if_neg (by omega)]
  match data with
  | [] => exact absurd rfl h0
  | [lo, hi] =>
    have hs := st16_returns hP h address (lo.toUInt16 ||| (hi.toUInt16 <<< 8))
    rw [word_low, word_high] at hs
    exact ⟨_, .inl rfl, hs⟩
  | b₀ :: b₁ :: b₂ :: rest =>
    have hm : maxRepeatSize = 256 := rfl
    have hw := wireAddress_lt a24 address
    refine ⟨_, .inr rfl, ?_⟩
    simp only [if_neg (Nat.not_lt.mpr hmax)]
    refine (stPtr_returns hP h address).bind fun s h ↦ ?_
    refine (repeatCount_returns h (by omega) (by omega)).bind fun s h ↦ ?_
    exact stPtrInc16Block_returns (by omega) h (by omega)

theorem writeData_returns (hP : P.store (m.cs csCtrla) = true) (h : InStep a24 m s) (address : ℕ)
    {data : List UInt8} (h0 : data.length ≠ 0) :
    ∃ m', m'.cs = m.cs ∧
      (address + data.length ≤ addressSpace a24 → m' = m.writeAll address data) ∧
      Returns (writeData (emuTransport P) address data) s () (InStep a24 m') := by
  match data with
  | [] => exact absurd rfl h0
  | [b] =>
    refine ⟨_, memWrite_cs m _ b, fun ha ↦ ?_, stByte_returns hP h address b⟩
    rw [wireAddress_of_lt (Nat.lt_of_succ_le ha)]
    rfl
  | [b₀, b₁] =>
    refine ⟨(m.memWrite (wireAddress a24 address) b₀).memWrite (wireAddress a24 (address + 1)) b₁,
      by rw [memWrite_cs, memWrite_cs], fun ha ↦ ?_, ?_⟩
    · simp only [List.length_cons, List.length_nil] at ha
      rw [wireAddress_of_lt (by omega), wireAddress_of_lt (by omega)]
      rfl
    · exact (stByte_returns hP h address b₀).bind fun s h ↦
        stByte_returns (by rwa [memWrite_cs]) h (address + 1) b₁
  | b₀ :: b₁ :: b₂ :: rest =>
    exact ⟨_, writeChunked_cs _ _ _ m, fun ha ↦ writeChunked_eq m le_rfl ha,
      writeChunks_returns hP _ _ _ h⟩

def freshLink : LinkState UpdiEmu :=
  ⟨UpdiLink.init, UpdiEmu.init.configP0 [0x1E, 0x92, 0x23] [0x74, 0x69, 0x6E, 0x79]⟩

theorem freshLink_inStep : InStep false freshLink.ctx.mem freshLink := ⟨rfl, rfl, rfl, rfl, rfl⟩

end UpdiProgrammer.HostTest
