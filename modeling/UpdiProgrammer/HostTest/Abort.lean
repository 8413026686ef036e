import UpdiProgrammer.HostTest.Reconnect

namespace UpdiProgrammer.HostTest

open Updi UpdiLink UpdiNvm UpdiSession Library.Program UpdiEmu

/-- How an operation is cut short: a send delivers its first `sent` bytes only,
a receive yields `got`, and `lost` of the bytes that waited are gone. -/
structure Fault where
  sent : ℕ
  got : List UInt8
  lost : ℕ

/-- A target on a line that works for so many more sends and receives, or
that was cut. -/
structure Line where
  emu : UpdiEmu
  left : Option ℕ

/-- Every send and receive works until the fault comes, and none does after
it. At the fault a receive yields less than was asked for. -/
def abortTransport (f : Fault) : UpdiTransport Line where
  send data c :=
    match c.left with
    | some (n + 1) => (true, ⟨c.emu.feed .emulator data, some n⟩)
    | some 0 => (false, ⟨c.emu.feed .emulator (data.take f.sent), none⟩)
    | none => (false, c)
  recv len _ c :=
    match c.left with
    | some (n + 1) => (c.emu.rx.take len, ⟨{ c.emu with rx := c.emu.rx.drop len }, some n⟩)
    | some 0 => (f.got.take (len - 1), ⟨{ c.emu with rx := c.emu.rx.drop f.lost }, none⟩)
    | none => ([], c)
  recv_length len _ c := by
    rcases c.left with _ | _ | n
    · exact Nat.zero_le len
    · exact (List.length_take_le _ _).trans (Nat.sub_le len 1)
    · exact List.length_take_le len _
  doubleBreak := some fun c ↦ if c.left = none then c else { c with emu := furiDoubleBreak c.emu }
  millis := some fun c ↦
    (c.emu.nowMs + 1, { c with emu := { c.emu with nowMs := c.emu.nowMs + 1 } })

section Steady

variable (d : UpdiDevice) (sib : List UInt8)

structure Left (e : UpdiEmu) : Prop where
  behind : LeftBehind e
  ident : Ident d sib e.mem

/-- The line works, the link uses addresses of the given size and the target satisfies `T`. -/
structure Up (a24 : Bool) (T : UpdiEmu → Prop) (s : LinkState Line) : Prop where
  works : s.ctx.left ≠ none
  addr24 : (s.link.addressBytes == 3) = a24
  target : T s.ctx.emu

structure Down (a24 : Bool) (s : LinkState Line) : Prop where
  cut : s.ctx.left = none
  addr24 : (s.link.addressBytes == 3) = a24
  left : Left d sib s.ctx.emu

def Steady (a24 : Bool) (T : UpdiEmu → Prop) (s : LinkState Line) : Prop :=
  Up a24 T s ∨ Down d sib a24 s

/-- Between instructions, with `n` bytes to read and a memory in `K`. -/
def Waiting (K : EmuMem → Prop) (n : ℕ) (e : UpdiEmu) : Prop :=
  ∃ m q, K m ∧ q.length = n ∧ At m q 0 e

/-- Run from `T` on a line that may be cut at any call, a normal return ends
in `S` and a failure between instructions, unless the line was cut. -/
def Keeps {α : Type} (a24 : Bool) (T : UpdiEmu → Prop) (m : LinkM Line α) (S : UpdiEmu → Prop) :
    Prop :=
  Triple (Steady d sib a24 T) m (fun _ ↦ Steady d sib a24 S)
    (fun _ ↦ Steady d sib a24 (Waiting (Ident d sib) 0))

end Steady

variable {d : UpdiDevice} {sib : List UInt8} {f : Fault} {a24 : Bool} {α β : Type}
  {T S : UpdiEmu → Prop} {m : EmuMem} {e : UpdiEmu}

theorem Keeps.bind {M Q : UpdiEmu → Prop} {m : LinkM Line α} {k : α → LinkM Line β}
    (h : Keeps d sib a24 T m M) (hk : ∀ a, Keeps d sib a24 M (k a) Q) :
    Keeps d sib a24 T (m >>= k) Q := Triple.bind h hk

theorem Keeps.pure {a : α} : Keeps d sib a24 T (pure a : LinkM Line α) T := Triple.pure fun _ h ↦ h

theorem Keeps.ite {c : Prop} [Decidable c] {m m' : LinkM Line α} (h : c → Keeps d sib a24 T m S)
    (h' : ¬c → Keeps d sib a24 T m' S) : Keeps d sib a24 T (if c then m else m') S :=
  Triple.ite h h'

theorem Steady.mono {s : LinkState Line} (h : Steady d sib a24 T s) (hT : ∀ e, T e → S e) :
    Steady d sib a24 S s := h.imp (fun h ↦ ⟨h.works, h.addr24, hT _ h.target⟩) id

theorem Keeps.conseq {m : LinkM Line α} {T₁ S₁ : UpdiEmu → Prop} (h : Keeps d sib a24 T m S)
    (hT : ∀ e, T₁ e → T e) (hS : ∀ e, S e → S₁ e) : Keeps d sib a24 T₁ m S₁ :=
  Triple.conseq h (fun _ hs ↦ hs.mono hT) (fun _ _ hs ↦ hs.mono hS) fun _ _ hs ↦ hs

theorem Keeps.fail {err : UpdiErr} (hT : ∀ e, T e → Waiting (Ident d sib) 0 e) :
    Keeps d sib a24 T (Prog.fail err : LinkM Line α) S := Triple.fail fun _ h ↦ h.mono hT

theorem Keeps.attempt {m : LinkM Line α} (h : Keeps d sib a24 T m (Waiting (Ident d sib) 0)) :
    Keeps d sib a24 T (Prog.attempt m) (Waiting (Ident d sib) 0) := Triple.attempt h

theorem sendRaw_steady {data : List UInt8} (hT : ∀ e, T e → S (e.feed .emulator data))
    (htorn : ∀ e, T e → ∀ k, Left d sib (e.feed .emulator (data.take k))) :
    Triple (Steady d sib a24 T) (sendRaw (abortTransport f) data)
      (fun sent s ↦ (sent = true ∧ Up a24 S s) ∨ Down d sib a24 s) fun _ _ ↦ False := by
  rintro ⟨link, emu, left⟩ (⟨hworks, haddr, ht⟩ | ⟨hcut, haddr, hleft⟩)
  · rcases left with _ | _ | n
    · exact absurd rfl hworks
    · exact .inr ⟨rfl, haddr, htorn emu ht f.sent⟩
    · exact .inl ⟨rfl, fun h ↦ (by cases h), haddr, hT emu ht⟩
  · obtain rfl : left = none := hcut
    exact .inr ⟨rfl, haddr, hleft⟩

theorem keeps_sendRaw {data : List UInt8} (hS : ∀ e, T e → S (e.feed .emulator data))
    (htorn : ∀ e, T e → ∀ k, Left d sib (e.feed .emulator (data.take k))) :
    Keeps d sib a24 T (sendRaw (abortTransport f) data) S :=
  (sendRaw_steady hS htorn).conseq (fun _ h ↦ h) (fun _ _ h ↦ h.imp And.right id) fun _ _ h ↦ h.elim

theorem keeps_send {data : List UInt8} (hT : ∀ e, T e → S (e.feed .emulator data))
    (htorn : ∀ e, T e → ∀ k, Left d sib (e.feed .emulator (data.take k))) :
    Keeps d sib a24 T (UpdiLink.send (abortTransport f) data) S := by
  refine Triple.bind ((sendRaw_steady hT htorn).conseq (fun _ h ↦ h) (fun _ _ h ↦ h)
    fun _ _ h ↦ h.elim) fun sent ↦ ?_
  refine Triple.ite (fun _ ↦ Triple.pure fun s h ↦ ?_) fun hlost ↦ Triple.fail fun s h ↦ ?_
  · exact h.imp And.right id
  · exact .inr (h.resolve_left fun h ↦ hlost h.1)

theorem Left.idle {q : List UInt8} {r : ℕ} (h : At m q r e) (hi : Ident d sib m)
    (hq : q.length ≤ 256) :
    Left d sib e := ⟨.idle h.state (h.rx ▸ hq), h.mem.symm ▸ hi⟩

theorem Left.waiting {K : EmuMem → Prop} (hK : ∀ m, K m → Ident d sib m) {n : ℕ} (hn : n ≤ 256)
    (h : Waiting K n e) : Left d sib e := by
  obtain ⟨m, q, hm, hq, hat⟩ := h
  exact .idle hat (hK m hm) (hq ▸ hn)

theorem recvRaw_steady {T : List UInt8 → UpdiEmu → Prop} (hd : Drains T) {q : List UInt8}
    (hleft : ∀ e, T q e → ∀ k, Left d sib { e with rx := q.drop k }) (len : ℕ) :
    Triple (Steady d sib a24 (T q)) (recvRaw (abortTransport f) len)
      (fun buf s ↦ (buf = q.take len ∧ Up a24 (T (q.drop len)) s) ∨ Down d sib a24 s)
        fun _ _ ↦ False := by
  rintro ⟨link, emu, left⟩ (⟨hworks, haddr, ht⟩ | ⟨hcut, haddr, hleft'⟩)
  · obtain ⟨hq, hdrain⟩ := hd q emu ht
    rcases left with _ | _ | n
    · exact absurd rfl hworks
    · refine .inr ⟨rfl, haddr, ?_⟩
      have hleft' := hleft emu ht f.lost
      rw [← hq] at hleft'
      exact hleft'
    · have hdrain' := hdrain len
      rw [← hq] at hdrain' ⊢
      exact .inl ⟨rfl, fun h ↦ (by cases h), haddr, hdrain'⟩
  · obtain rfl : left = none := hcut
    exact .inr ⟨rfl, haddr, hleft'⟩

theorem keeps_recvAck {T : List UInt8 → UpdiEmu → Prop} (hd : Drains T)
    (hleft : ∀ e, T [phyAck] e → ∀ k, Left d sib { e with rx := [phyAck].drop k }) :
    Keeps d sib a24 (T [phyAck]) (recvAck (abortTransport f)) (T []) := by
  refine Triple.bind ((recvRaw_steady hd hleft 1).conseq (fun _ h ↦ h) (fun _ _ h ↦ h)
    fun _ _ h ↦ h.elim) fun buf ↦ ?_
  refine Triple.ite (fun _ ↦ Triple.pure fun s h ↦ ?_) fun hne ↦ Triple.fail fun s h ↦ ?_
  · exact h.imp And.right id
  · exact .inr (h.resolve_left fun h ↦ hne h.1)

theorem drains_exists {K : EmuMem → Prop} {T : EmuMem → List UInt8 → UpdiEmu → Prop}
    (h : ∀ m, Drains (T m)) : Drains fun q e ↦ ∃ m, K m ∧ T m q e := by
  rintro q e ⟨m, hm, ht⟩
  obtain ⟨hq, hdrain⟩ := h m q e ht
  exact ⟨hq, fun n ↦ ⟨m, hm, hdrain n⟩⟩

theorem keeps_recvRaw {K : EmuMem → Prop} (hK : ∀ m, K m → Ident d sib m) {n len : ℕ} (hn : n ≤ 256)
    (hlen : n ≤ len) :
    Keeps d sib a24 (Waiting K n) (recvRaw (abortTransport f) len) (Waiting K 0) := by
  intro s hs
  obtain ⟨q, hq, hs⟩ : ∃ q, q.length ≤ n ∧ Steady d sib a24 (fun e ↦ ∃ m, K m ∧ At m q 0 e) s := by
    rcases hs with ⟨hworks, haddr, m, q, hm, hq, hat⟩ | hdown
    · exact ⟨q, hq.le, .inl ⟨hworks, haddr, m, hm, hat⟩⟩
    · exact ⟨[], Nat.zero_le n, .inr hdown⟩
  have hdrains : Drains fun q e ↦ ∃ m, K m ∧ At m q 0 e := drains_exists fun m ↦ drains_at
  have hleft : ∀ e, (∃ m, K m ∧ At m q 0 e) → ∀ k, Left d sib { e with rx := q.drop k } := by
    rintro e ⟨m, hm, hat⟩ k
    refine .idle ((drains_at q e hat).2 k) (hK m hm) ?_
    rw [List.length_drop]
    omega
  have hnil : q.drop len = [] := List.drop_eq_nil_of_le (hq.trans hlen)
  have hkeeps : Keeps d sib a24 (fun e ↦ ∃ m, K m ∧ At m q 0 e) (recvRaw (abortTransport f) len)
      (Waiting K 0) := by
    refine (recvRaw_steady hdrains hleft len).conseq (fun _ h ↦ h)
      (fun _ _ h ↦ h.imp (fun h ↦ ?_) id) fun _ _ h ↦ h.elim
    obtain ⟨m, hm, hat⟩ := h.2.target
    rw [hnil] at hat
    exact ⟨h.2.works, h.2.addr24, m, [], hm, rfl, hat⟩
  exact hkeeps s hs

theorem keeps_recvByte {K : EmuMem → Prop} (hK : ∀ m, K m → Ident d sib m) :
    Keeps d sib a24 (Waiting K 1) (recvByte (abortTransport f)) (Waiting K 0) := by
  have hrest : ∀ e, Waiting K 0 e → Waiting (Ident d sib) 0 e := by
    rintro e ⟨m, q, hm, hq, hat⟩
    exact ⟨m, q, hK m hm, hq, hat⟩
  refine (keeps_recvRaw hK (by decide) le_rfl).bind fun buf ↦ ?_
  split
  · exact .pure
  · exact .fail hrest

theorem keeps_recvAll {K : EmuMem → Prop} (hK : ∀ m, K m → Ident d sib m) {n : ℕ} (hn : n ≤ 256) :
    Keeps d sib a24 (Waiting K n) (recvAll (abortTransport f) n) (Waiting K 0) := by
  have hrest : ∀ e, Waiting K 0 e → Waiting (Ident d sib) 0 e := by
    rintro e ⟨m, q, hm, hq, hat⟩
    exact ⟨m, q, hK m hm, hq, hat⟩
  refine (keeps_recvRaw hK hn le_rfl).bind fun buf ↦ ?_
  exact .ite (fun _ ↦ .pure) fun _ ↦ .fail hrest

/-- A frame that is cut short leaves the decoder before the SYNCH byte, before
the opcode, or among the operands. -/
theorem left_frame {r : ℕ} {op : UInt8} {operands : List UInt8} (h : At m [] r e)
    (hi : Ident d sib m)
    (hrest : ∀ j, Left d sib ((({ e with state := .opcode } : UpdiEmu).feedOpcode op).feed .emulator
      (operands.take j)))
    (k : ℕ) :
    Left d sib (e.feed .emulator ((phySync :: op :: operands).take k)) := by
  match k with
  | 0 => exact .idle h hi (Nat.zero_le _)
  | 1 =>
    have hbyte : e.feed .emulator ((phySync :: op :: operands).take 1) =
        { e with state := .opcode } := by
      rw [List.take_succ_cons, List.take_zero, feed_cons, feed_nil]
      unfold feedByte
      rw [h.state]
      rfl
    rw [hbyte]
    exact ⟨.opcode rfl h.rx, h.mem.symm ▸ hi⟩
  | k + 2 =>
    rw [List.take_succ_cons, List.take_succ_cons, feed_frame h.state]
    exact hrest k

theorem left_operands {l : List UInt8}
    (hs : e.state = .ldsAddr ∨ e.state = .stsAddr ∨ e.state = .stsData ∨ e.state = .stptrAddr ∨
      e.state = .key)
    (hacc : e.acc = []) (hl : l.length = e.need)
    (hpart : ∀ j < l.length, Left d sib { e with acc := l.take j })
    (hfull : Left d sib (e.feed .emulator l)) (j : ℕ) :
    Left d sib (e.feed .emulator (l.take j)) := by
  by_cases hj : j < l.length
  · have hlen : (l.take j).length = j := by
      rw [List.length_take]
      omega
    rw [feed_accumulate (l.take j) e hs (by rw [hacc, List.length_nil, hlen]; omega), hacc,
      List.nil_append]
    exact hpart j hj
  · rwa [List.take_of_length_le (Nat.le_of_not_lt hj)]

section Calls

theorem ident_self : ∀ m, Ident d sib m → Ident d sib m := fun _ h ↦ h

theorem waiting_at {K : EmuMem → Prop} {q : List UInt8} (hm : K m) (h : At m q 0 e) :
    Waiting K q.length e := ⟨m, q, hm, rfl, h⟩

theorem at_of_waiting {K : EmuMem → Prop} (h : Waiting K 0 e) : ∃ m, K m ∧ At m [] 0 e := by
  obtain ⟨m, q, hm, hq, hat⟩ := h
  obtain rfl := List.length_eq_zero_iff.mp hq
  exact ⟨m, hm, hat⟩

theorem enqueue_nil (b : UInt8) : enqueue [] b = [b] := rfl

theorem keeps_ldcs (a : UInt8) :
    Keeps d sib a24 (Waiting (Ident d sib) 0) (ldcs (abortTransport f) a)
    (Waiting (Ident d sib) 0) := by
  refine (keeps_send (S := Waiting (Ident d sib) 1) (fun e he ↦ ?_) fun e he ↦ ?_).bind fun _ ↦
    keeps_recvByte ident_self
  · obtain ⟨m, hi, hat⟩ := at_of_waiting he
    exact waiting_at hi (hat.ldcs a)
  · obtain ⟨m, hi, hat⟩ := at_of_waiting he
    refine left_frame hat hi fun j ↦ ?_
    have hfull := hat.ldcs (P := .emulator) a
    rw [feed_frame hat.state] at hfull
    rw [List.take_nil]
    exact .idle hfull hi (by rw [enqueue_nil]; simp)

theorem keeps_stcs {a : UInt8} (ha : (a &&& 0x0F) &&& 0x0F ≠ csStatusa) (v : UInt8)
    (hT : ∀ e, T e → ∃ m r, Ident d sib m ∧ At m [] r e)
    (hS : ∀ e, T e → S (e.feed .emulator (stcsFrame a v))) :
    Keeps d sib a24 T (stcs (abortTransport f) a v) S := by
  refine keeps_send hS fun e he ↦ ?_
  obtain ⟨m, r, hi, hat⟩ := hT e he
  refine left_frame hat hi fun j ↦ ?_
  have hop : ({ e with state := .opcode } : UpdiEmu).feedOpcode (updiStcs ||| (a &&& 0x0F)) =
      { e with pendingCsAddr := a &&& 0x0F, state := .stcsVal } := by
    simp only [feedOpcode, group_stcs, operand_stcs]
  cases j with
  | zero =>
    rw [List.take_zero, feed_nil, hop]
    exact ⟨.stcsVal rfl hat.rx ha, hat.mem.symm ▸ hi⟩
  | succ j =>
    have hfull := hat.stcs (P := .emulator) a v
    rw [feed_frame hat.state] at hfull
    rw [List.take_succ_cons, List.take_nil]
    exact .idle hfull (hi.applyStcs ha v) (by decide)

theorem keeps_stcs_waiting {a : UInt8} (ha : (a &&& 0x0F) &&& 0x0F ≠ csStatusa) (v : UInt8) :
    Keeps d sib a24 (Waiting (Ident d sib) 0) (stcs (abortTransport f) a v)
      (Waiting (Ident d sib) 0) := by
  refine keeps_stcs ha v (fun e he ↦ ?_) fun e he ↦ ?_
  · obtain ⟨m, hi, hat⟩ := at_of_waiting he
    exact ⟨m, 0, hi, hat⟩
  · obtain ⟨m, hi, hat⟩ := at_of_waiting he
    exact waiting_at (hi.applyStcs ha v) (hat.stcs a v)

theorem take_putAddress_length {address j : ℕ} (hj : j < (putAddress a24 address).length) :
    ((putAddress a24 address).take j).length < if a24 then 3 else 2 := by
  rw [← putAddress_length a24 address, List.length_take]
  omega

theorem addressSize_le (a24 : Bool) : (if a24 then 3 else 2) ≤ 3 := by
  cases a24 <;> decide

theorem keeps_addr24 {k : Bool → LinkM Line α} (h : Keeps d sib a24 T (k a24) S) :
    Keeps d sib a24 T (addr24 >>= k) S := by
  intro s hs
  have haddr : (s.link.addressBytes == 3) = a24 := hs.elim Up.addr24 Down.addr24
  rw [addr24, Prog.read_bind_run, haddr]
  exact h s hs

theorem keeps_ldByte (address : ℕ) :
    Keeps d sib a24 (Waiting (Ident d sib) 0) (ldByte (abortTransport f) address)
      (Waiting (Ident d sib) 0) := by
  refine keeps_addr24
    ((keeps_send (S := Waiting (Ident d sib) 1) (fun e he ↦ ?_) fun e he ↦ ?_).bind
    fun _ ↦ keeps_recvByte ident_self)
  · obtain ⟨m, hi, hat⟩ := at_of_waiting he
    exact waiting_at hi (hat.lds a24 address)
  · obtain ⟨m, hi, hat⟩ := at_of_waiting he
    refine left_frame hat hi fun j ↦ ?_
    have hfull := hat.lds (P := .emulator) a24 address
    rw [List.cons_append, List.cons_append, List.nil_append, feed_frame hat.state] at hfull
    rw [feedOpcode_lds] at hfull ⊢
    refine left_operands (.inl rfl) rfl (putAddress_length a24 address) (fun j hj ↦ ?_)
      (.idle hfull hi (by rw [enqueue_nil]; simp)) j
    exact ⟨.ldsAddr rfl hat.rx (take_putAddress_length hj) (addressSize_le a24) rfl,
      hat.mem.symm ▸ hi⟩

/-- A cut address is no address of a signature byte where the address is none. -/
theorem spares_cut {address j : ℕ} (haddr : Spares address) (hlow : address < 2 ^ 16)
    (hlen : ((putAddress a24 address).take j).length = 2) :
    Spares (leValue ((putAddress a24 address).take j)) := by
  have htwo : (putAddress a24 address).take j =
      [UInt8.ofNat address, UInt8.ofNat (address / 0x100)] := by
    rw [List.length_take, putAddress_length] at hlen
    cases a24 with
    | false =>
      have hj : 2 ≤ j := by
        simp only [Bool.false_eq_true, if_false] at hlen
        omega
      exact List.take_of_length_le hj
    | true =>
      obtain rfl : j = 2 := by
        simp only [if_true] at hlen
        omega
      rfl
  have hval : leValue [UInt8.ofNat address, UInt8.ofNat (address / 0x100)] = address := by
    simp only [leValue, UInt8.toNat_ofNat']
    omega
  rwa [htwo, hval]

variable {K L : EmuMem → Prop}

theorem keeps_stByte (hK : ∀ m, K m → Ident d sib m) (hL : ∀ m, L m → Ident d sib m) {address : ℕ}
    {value : UInt8} (haddr : Spares address) (hlow : address < 2 ^ 16)
    (hw : ∀ m, K m → L (m.memWrite address value)) :
    Keeps d sib a24 (Waiting K 0) (stByte (abortTransport f) address value) (Waiting L 0) := by
  have hwire : wireAddress a24 address = address := by
    refine wireAddress_of_lt (Nat.lt_of_lt_of_le hlow ?_)
    cases a24 <;> decide
  have hstoring : ∀ {e : UpdiEmu} {m : EmuMem} {q : List UInt8}, K m → q.length ≤ 1 →
      Storing m q 0 address 1 e → Left d sib e := by
    intro e m q hm hq h
    exact ⟨.stsData h.state (h.rx ▸ hq) h.acc h.need (h.curAddr.symm ▸ haddr), h.mem.symm ▸ hK m hm⟩
  refine keeps_addr24
    (Keeps.bind (M := fun e ↦ ∃ m, K m ∧ Storing m [phyAck] 0 address 1 e) ?_ fun _ ↦ ?_)
  · refine keeps_send (fun e he ↦ ?_) fun e he ↦ ?_
    · obtain ⟨m, hm, hat⟩ := at_of_waiting he
      have h := hat.sts (P := .emulator) a24 address false
      rw [hwire] at h
      exact ⟨m, hm, h⟩
    · obtain ⟨m, hm, hat⟩ := at_of_waiting he
      refine left_frame hat (hK m hm) fun j ↦ ?_
      have hfull := hat.sts (P := .emulator) a24 address false
      have hop : ({ e with state := .opcode } : UpdiEmu).feedOpcode
          (updiSts ||| (if a24 then address24 else address16) ||| data8) = _ :=
        feedOpcode_sts _ a24 false
      rw [List.cons_append, List.cons_append, List.nil_append, feed_frame hat.state, hwire,
        feedOpcode_sts] at hfull
      rw [hop]
      refine left_operands (.inr (.inl rfl)) rfl (putAddress_length a24 address) (fun j hj ↦ ?_)
        (hstoring hm le_rfl hfull) j
      exact ⟨.stsAddr rfl hat.rx (take_putAddress_length hj) (addressSize_le a24) rfl
        fun hlen ↦ spares_cut haddr hlow hlen, hat.mem.symm ▸ hK m hm⟩
  · refine Keeps.bind (M := fun e ↦ ∃ m, K m ∧ Storing m [] 0 address 1 e) ?_ fun _ ↦ ?_
    · refine keeps_recvAck (drains_exists fun m ↦ drains_storing) ?_
      rintro e ⟨m, hm, h⟩ k
      refine hstoring hm ?_ ((drains_storing _ _ h).2 k)
      rw [List.length_drop, List.length_singleton]
      omega
    refine Keeps.bind (M := fun e ↦ ∃ m, L m ∧ At m [phyAck] 0 e) ?_ fun _ ↦ ?_
    · refine keeps_send ?_ ?_
      · rintro e ⟨m, hm, h⟩
        have hdata := h.data (P := .emulator) (l := [value]) rfl (List.cons_ne_nil _ _)
        exact ⟨_, hw m hm, hdata⟩
      · rintro e ⟨m, hm, h⟩ k
        cases k with
        | zero => exact hstoring hm (Nat.zero_le _) h
        | succ k =>
          have hfull := h.data (P := .emulator) (l := [value]) rfl (List.cons_ne_nil _ _)
          rw [List.take_succ_cons, List.take_nil]
          exact .idle hfull (hL _ (hw m hm)) (by simp [ack_emulator, enqueueAll_ack])
    · have hlast : Keeps d sib a24 (fun e ↦ ∃ m, L m ∧ At m [phyAck] 0 e)
          (recvAck (abortTransport f)) fun e ↦ ∃ m, L m ∧ At m [] 0 e := by
        refine keeps_recvAck (drains_exists fun m ↦ drains_at) ?_
        rintro e ⟨m, hm, h⟩ k
        refine .idle ((drains_at _ _ h).2 k) (hL m hm) ?_
        rw [List.length_drop, List.length_singleton]
        omega
      refine hlast.conseq (fun _ h ↦ h) ?_
      rintro e ⟨m, hm, h⟩
      exact waiting_at hm h

def Pointing (d : UpdiDevice) (sib : List UInt8) (p r : ℕ) (e : UpdiEmu) : Prop :=
  ∃ m, Ident d sib m ∧ Aimed m [] r p e

theorem keeps_stPtr (address : ℕ) :
    Keeps d sib a24 (Waiting (Ident d sib) 0) (stPtr (abortTransport f) address)
      (Pointing d sib (wireAddress a24 address) 0) := by
  refine keeps_addr24 (Keeps.bind
    (M := fun e ↦ ∃ m, Ident d sib m ∧ Aimed m [phyAck] 0 (wireAddress a24 address) e) ?_ fun _ ↦
      ?_)
  · refine keeps_send (fun e he ↦ ?_) fun e he ↦ ?_
    · obtain ⟨m, hi, hat⟩ := at_of_waiting he
      have hsent := hat.stPtr (P := .emulator) a24 address
      exact ⟨m, hi, hsent⟩
    · obtain ⟨m, hi, hat⟩ := at_of_waiting he
      refine left_frame hat hi fun j ↦ ?_
      have hfull := hat.stPtr (P := .emulator) a24 address
      rw [List.cons_append, List.cons_append, List.nil_append, feed_frame hat.state,
        feedOpcode_stPtr] at hfull
      rw [feedOpcode_stPtr]
      refine left_operands (.inr (.inr (.inr (.inl rfl)))) rfl (putAddress_length a24 address)
        (fun j hj ↦ ?_) (.idle hfull.toAt hi (by simp [ack_emulator, enqueueAll_ack])) j
      exact ⟨.stptrAddr rfl hat.rx (take_putAddress_length hj) (addressSize_le a24),
        hat.mem.symm ▸ hi⟩
  · have hack : Keeps d sib a24
        (fun e ↦ ∃ m, Ident d sib m ∧ Aimed m [phyAck] 0 (wireAddress a24 address) e)
        (recvAck (abortTransport f))
        fun e ↦ ∃ m, Ident d sib m ∧ Aimed m [] 0 (wireAddress a24 address) e := by
      refine keeps_recvAck (drains_exists fun m ↦ drains_aimed) ?_
      rintro e ⟨m, hi, h⟩ k
      refine .idle ((drains_aimed _ _ h).2 k).toAt hi ?_
      rw [List.length_drop, List.length_singleton]
      omega
    exact hack

theorem keeps_repeatCount {p r count : ℕ} (h1 : 1 ≤ count) (hc : count ≤ maxRepeatSize) :
    Keeps d sib a24 (Pointing d sib p r) (repeatCount (abortTransport f) count)
      (Pointing d sib p (count - 1)) := by
  have hmax : count ≤ 256 := hc
  have hn : (UInt8.ofNat (count - 1)).toNat = count - 1 := by
    rw [UInt8.toNat_ofNat']
    omega
  have hrange : ¬(count < 1 ∨ maxRepeatSize < count) := by omega
  unfold repeatCount
  rw [if_neg hrange]
  refine keeps_send ?_ ?_
  · rintro e ⟨m, hi, h⟩
    have hsent := h.send_repeat (P := .emulator) (UInt8.ofNat (count - 1))
    rw [hn] at hsent
    exact ⟨m, hi, hsent⟩
  · rintro e ⟨m, hi, h⟩
    refine left_frame h.toAt hi fun j ↦ ?_
    cases j with
    | zero => exact ⟨.repeatVal rfl h.rx, h.mem.symm ▸ hi⟩
    | succ j =>
      have hfull := h.send_repeat (P := .emulator) (UInt8.ofNat (count - 1))
      rw [feed_frame h.state] at hfull
      rw [List.take_succ_cons, List.take_nil]
      exact .idle hfull.toAt hi (Nat.zero_le _)

theorem keeps_ldPtrInc {p r : ℕ} (hr : r < 256) (hp : p < 2 ^ 24) :
    Keeps d sib a24 (Pointing d sib p r) (ldPtrInc (abortTransport f) (r + 1))
      (Waiting (Ident d sib) 0) := by
  have hcap : emuRxCap = 2048 := rfl
  have hload : ∀ {m : EmuMem} {e : UpdiEmu}, Aimed m [] r p e →
      At m (cells m p (r + 1)) 0 (e.feed .emulator [phySync, updiLd ||| ptrInc ||| data8]) := by
    intro m e h
    have hload := h.load (P := .emulator) false (by simp only [Bool.false_eq_true, if_false]; omega)
    simp only [Bool.false_eq_true, if_false, Nat.mul_one] at hload
    rwa [enqueueAll_of_lt (by rw [cells_length, List.length_nil]; omega), List.nil_append] at hload
  refine (keeps_send (S := Waiting (Ident d sib) (r + 1)) ?_ ?_).bind fun _ ↦
    keeps_recvAll ident_self hr
  · rintro e ⟨m, hi, h⟩
    exact ⟨m, _, hi, cells_length m p (r + 1), hload h⟩
  · rintro e ⟨m, hi, h⟩
    refine left_frame h.toAt hi fun j ↦ ?_
    have hfull := hload h
    rw [feed_frame h.state] at hfull
    rw [List.take_nil]
    exact .idle hfull hi (by rw [cells_length]; omega)

theorem keeps_readData (address : ℕ) {size : ℕ} (h1 : 1 ≤ size) :
    Keeps d sib a24 (Waiting (Ident d sib) 0) (readData (abortTransport f) address size)
      (Waiting (Ident d sib) 0) := by
  have hw := wireAddress_lt a24 address
  unfold readData
  refine .ite (fun _ ↦ .fail fun _ h ↦ h) fun hsize ↦ ?_
  have hmax : size ≤ 256 := Nat.le_of_not_lt hsize
  have hload : Keeps d sib a24 (Pointing d sib (wireAddress a24 address) (size - 1))
      (ldPtrInc (abortTransport f) size) (Waiting (Ident d sib) 0) := by
    have h : Keeps d sib a24 (Pointing d sib (wireAddress a24 address) (size - 1))
        (ldPtrInc (abortTransport f) (size - 1 + 1)) (Waiting (Ident d sib) 0) :=
      keeps_ldPtrInc (by omega) hw
    rwa [Nat.sub_add_cancel h1] at h
  refine (keeps_stPtr address).bind fun _ ↦ ?_
  by_cases h2 : 1 < size
  · simp only [if_pos h2]
    exact (keeps_repeatCount h1 hmax).bind fun _ ↦ hload
  · obtain rfl : size = 1 := by omega
    exact hload

theorem keeps_setAckEnabled (b : Bool) :
    Keeps d sib a24 T (setAckEnabled b : LinkM Line Unit) T :=
  Triple.modify fun _ h ↦ h.imp (fun h ↦ ⟨h.works, h.addr24, h.target⟩)
    fun h ↦ ⟨h.cut, h.addr24, h.left⟩

theorem keeps_enableAck : Keeps d sib a24 (Waiting (Ident d sib) 0) (enableAck (abortTransport f))
    (Waiting (Ident d sib) 0) :=
  (keeps_stcs_waiting (by decide) _).bind fun _ ↦ keeps_setAckEnabled true

theorem keeps_disableAck {p r : ℕ} :
    Keeps d sib a24 (Pointing d sib p r) (disableAck (abortTransport f))
    (Pointing d sib p r) := by
  refine Keeps.bind (M := Pointing d sib p r) (keeps_stcs (by decide) _ ?_ ?_) fun _ ↦
    keeps_setAckEnabled false
  · rintro e ⟨m, hi, h⟩
    exact ⟨m, r, hi, h.toAt⟩
  · rintro e ⟨m, hi, h⟩
    exact ⟨_, hi.applyStcs (by decide) _, h.stcs _ _⟩

/-- In a word block at `p`, with `n` bytes still to come. -/
structure InBlock (d : UpdiDevice) (sib : List UInt8) (p n : ℕ) (e : UpdiEmu) : Prop where
  ident : Ident d sib e.mem
  state : e.state = .stinc16
  rx : e.rx = []
  repeatNext : e.repeatNext = 0
  ptr : e.ptr = p
  incLeft : e.incLeft = n

theorem InBlock.left {p n : ℕ} (h : InBlock d sib p n e) (hn : 0 < n) (hlow : d.flashAddress ≤ p)
    (hhigh : p + n ≤ d.flashAddress + emuFlashSize) : Left d sib e := by
  have hbase := h.ident.target.configured.flashBase
  refine ⟨.stinc16 h.state h.rx h.repeatNext ?_ ?_ ?_, h.ident⟩
  · rwa [h.incLeft]
  · rwa [h.ptr, hbase]
  · rwa [h.ptr, h.incLeft, hbase]

theorem flash_below (hd : d.WellFormed) : d.flashAddress + emuFlashSize < 2 ^ 32 := by
  have hfits := hd.flash_fits
  have hsize : emuFlashSize = 0x10000 := rfl
  split_ifs at hfits <;> omega

theorem InBlock.take {p : ℕ} {l : List UInt8} (hd : d.WellFormed) (h : InBlock d sib p l.length e)
    (hlow : d.flashAddress ≤ p) (hhigh : p + l.length ≤ d.flashAddress + emuFlashSize) {k : ℕ}
    (hk : k < l.length) : Left d sib (e.feed .emulator (l.take k)) := by
  have hfit := flash_below hd
  have hbase := h.ident.target.configured.flashBase
  have hlen : (l.take k).length = k := by
    rw [List.length_take]
    omega
  have hfeed := feed_inBlock (P := .emulator) (l.take k) e h.state rfl (by rw [h.incLeft]; omega)
    (by rw [h.ptr]; omega)
  have hblock : InBlock d sib (p + k) (l.length - k) (e.feed .emulator (l.take k)) := by
    rw [hfeed, hlen]
    refine ⟨?_, h.state, h.rx, h.repeatNext, by rw [h.ptr], by rw [h.incLeft]⟩
    exact h.ident.writeBlock (by rwa [h.ptr, hbase]) (by rw [h.ptr, hbase]; omega)
  exact hblock.left (by omega) (by omega) (by omega)

theorem InBlock.all {p : ℕ} {l : List UInt8} (hd : d.WellFormed) (h : InBlock d sib p l.length e)
    (hne : l ≠ []) (hlow : d.flashAddress ≤ p)
    (hhigh : p + l.length ≤ d.flashAddress + emuFlashSize) :
    Waiting (Ident d sib) 0 (e.feed .emulator l) := by
  have hfit := flash_below hd
  have hbase := h.ident.target.configured.flashBase
  have hat := feed_stinc16 (P := .emulator) l e h.state rfl h.incLeft hne (by rw [h.ptr]; omega)
    h.repeatNext
  rw [h.ptr, h.rx] at hat
  exact waiting_at (h.ident.writeBlock (by rwa [hbase]) (by rwa [hbase])) hat

theorem keeps_stPtrInc16Block (hd : d.WellFormed) {p r : ℕ} {l : List UInt8}
    (hl : l.length = (r + 1) * 2) (hlow : d.flashAddress ≤ p)
    (hhigh : p + l.length ≤ d.flashAddress + emuFlashSize) :
    Keeps d sib a24 (Pointing d sib p r) (stPtrInc16Block (abortTransport f) l)
      (Waiting (Ident d sib) 0) := by
  have hopened : ∀ e, Pointing d sib p r e →
      InBlock d sib p l.length (e.feed .emulator [phySync, updiSt ||| ptrInc ||| data16]) := by
    rintro e ⟨m, hi, h⟩
    have hop : e.feed .emulator [phySync, updiSt ||| ptrInc ||| data16] =
        { e with repeatNext := 0, incLeft := (e.repeatNext + 1) * 2, state := .stinc16 } := by
      rw [feed_frame h.state]
      rfl
    rw [hop]
    exact ⟨h.mem.symm ▸ hi, rfl, h.rx, rfl, h.ptr, by rw [h.repeatNext, hl]⟩
  have hne : l ≠ [] := by
    rintro rfl
    rw [List.length_nil] at hl
    omega
  have hpos : 0 < l.length := List.length_pos_iff.mpr hne
  refine keeps_disableAck.bind fun _ ↦
    (keeps_send (S := InBlock d sib p l.length) hopened ?_).bind fun _ ↦
    (keeps_send (S := Waiting (Ident d sib) 0) ?_ ?_).bind fun _ ↦ keeps_enableAck
  · intro e he
    have hfull := (hopened e he).left hpos hlow hhigh
    obtain ⟨m, hi, h⟩ := he
    refine left_frame h.toAt hi fun j ↦ ?_
    rw [feed_frame h.state] at hfull
    rw [List.take_nil]
    exact hfull
  · intro e he
    exact he.all hd hne hlow hhigh
  · intro e he k
    by_cases hk : k < l.length
    · exact he.take hd hlow hhigh hk
    · rw [List.take_of_length_le (Nat.le_of_not_lt hk)]
      exact .waiting ident_self (Nat.zero_le _) (he.all hd hne hlow hhigh)

theorem keeps_writeDataWords (hd : d.WellFormed) {address : ℕ} {data : List UInt8}
    (h2 : 2 < data.length) (hwire : wireAddress a24 address = address)
    (hlow : d.flashAddress ≤ address)
    (hhigh : address + data.length ≤ d.flashAddress + emuFlashSize) :
    Keeps d sib a24 (Waiting (Ident d sib) 0) (writeDataWords (abortTransport f) address data)
      (Waiting (Ident d sib) 0) := by
  unfold writeDataWords
  refine .ite (fun _ ↦ .fail fun _ h ↦ h) fun heven ↦ ?_
  match data with
  | [] => exact absurd h2 (by simp)
  | [_, _] => exact absurd h2 (by simp)
  | [_] => exact absurd h2 (by simp)
  | b₀ :: b₁ :: b₂ :: rest =>
    have hm : maxRepeatSize = 256 := rfl
    refine .ite (fun _ ↦ .fail fun _ h ↦ h) fun hmax ↦ ?_
    refine (keeps_stPtr address).bind fun _ ↦ ?_
    rw [hwire]
    refine (keeps_repeatCount (by omega) (by omega)).bind fun _ ↦ ?_
    exact keeps_stPtrInc16Block hd (by omega) hlow hhigh

/-- Half way through the hand-over of a key. -/
structure Keying (d : UpdiDevice) (sib : List UInt8) (e : UpdiEmu) : Prop where
  ident : Ident d sib e.mem
  state : e.state = .key
  rx : e.rx = []
  repeatNext : e.repeatNext = 0
  need : e.need = 8
  acc : e.acc = []

theorem Keying.left (h : Keying d sib e) : Left d sib e :=
  ⟨.key h.state h.rx h.need (h.acc ▸ by decide), h.ident⟩

theorem Keying.all (h : Keying d sib e) {l : List UInt8} (hl : l.length = 8) :
    Waiting (Ident d sib) 0 (e.feed .emulator l) := by
  have hne : l ≠ [] := by
    rintro rfl
    cases hl
  rw [feed_key h.state (by rw [h.acc, h.need, hl]; rfl) h.need hne]
  exact ⟨_, [], h.ident.applyKey _, rfl, rfl, rfl, h.rx, h.repeatNext⟩

theorem keeps_sendKey {k : List UInt8} : Keeps d sib a24 (Waiting (Ident d sib) 0)
    (sendKey (abortTransport f) key64 k) (Waiting (Ident d sib) 0) := by
  unfold sendKey
  refine .ite (fun _ ↦ .fail fun _ h ↦ h) fun hk ↦ .ite (fun _ ↦ .fail fun _ h ↦ h) fun _ ↦ ?_
  have hlen : k.reverse.length = 8 := (List.length_reverse).trans (not_not.mp hk)
  have hopened : ∀ e, Waiting (Ident d sib) 0 e →
      Keying d sib (e.feed .emulator [phySync, updiKey ||| keyKey ||| key64]) := by
    intro e he
    obtain ⟨m, hi, h⟩ := at_of_waiting he
    have hop : e.feed .emulator [phySync, updiKey ||| keyKey ||| key64] =
        { e with need := 8, acc := [], state := .key } := by
      rw [feed_frame h.state]
      rfl
    rw [hop]
    exact ⟨h.mem.symm ▸ hi, rfl, h.rx, h.repeatNext, rfl, rfl⟩
  refine (keeps_send (S := Keying d sib) hopened fun e he ↦ ?_).bind fun _ ↦
    keeps_send (fun e he ↦ he.all hlen) fun e he k ↦ ?_
  · have hfull := (hopened e he).left
    obtain ⟨m, hi, h⟩ := at_of_waiting he
    refine left_frame h hi fun j ↦ ?_
    rw [feed_frame h.state] at hfull
    rw [List.take_nil]
    exact hfull
  · refine left_operands (.inr (.inr (.inr (.inr he.state)))) he.acc (hlen.trans he.need.symm)
      (fun j hj ↦ ?_) (.waiting ident_self (Nat.zero_le _) (he.all hlen)) k
    refine ⟨.key he.state he.rx he.need ?_, he.ident⟩
    rw [List.length_take]
    omega

theorem keeps_readSib : Keeps d sib a24 (Waiting (Ident d sib) 0) (readSib (abortTransport f) 16)
    (Waiting (Ident d sib) 0) := by
  have hsent : ∀ {m : EmuMem} {e : UpdiEmu}, At m [] 0 e → At m (sibBytes m 16) 0
      (e.feed .emulator [phySync, updiKey ||| keySib ||| sibSelector 16]) := by
    intro m e h
    have hsib := h.sib (P := .emulator) 16
    have h16 : sibLength 16 = 16 := rfl
    rwa [h16, enqueueAll_of_lt (by rw [sibBytes_length]; decide), List.nil_append] at hsib
  refine (keeps_send (S := Waiting (Ident d sib) 16) (fun e he ↦ ?_) fun e he ↦ ?_).bind fun _ ↦
    (keeps_recvRaw ident_self (by decide) le_rfl).bind fun buf ↦ ?_
  · obtain ⟨m, hi, h⟩ := at_of_waiting he
    exact ⟨m, _, hi, sibBytes_length m 16, hsent h⟩
  · obtain ⟨m, hi, h⟩ := at_of_waiting he
    refine left_frame h hi fun j ↦ ?_
    have hfull := hsent h
    rw [feed_frame h.state] at hfull
    rw [List.take_nil]
    exact .idle hfull hi (by rw [sibBytes_length]; decide)
  · exact .ite (fun _ ↦ .pure) fun _ ↦ .fail fun _ h ↦ h

/-- Between instructions a BREAK changes nothing, however much of it arrives. -/
theorem keeps_break : Keeps d sib a24 (Waiting (Ident d sib) 0)
    (sendRaw (abortTransport f) [updiBreak]) (Waiting (Ident d sib) 0) := by
  refine keeps_sendRaw (fun e he ↦ ?_) fun e he k ↦ ?_
  · obtain ⟨m, hi, h⟩ := at_of_waiting he
    exact waiting_at hi h.send_break
  · obtain ⟨m, hi, h⟩ := at_of_waiting he
    match k with
    | 0 => exact .idle h hi (Nat.zero_le _)
    | k + 1 =>
      rw [List.take_succ_cons, List.take_nil]
      exact .idle h.send_break hi (Nat.zero_le _)

theorem keeps_doubleBreak : Keeps d sib a24 (Waiting (Ident d sib) 0)
    (doubleBreak (abortTransport f)) (Waiting (Ident d sib) 0) := by
  rintro ⟨link, emu, left⟩ (⟨hworks, haddr, ht⟩ | ⟨hcut, haddr, hleft⟩)
  · obtain ⟨m, hi, h⟩ := at_of_waiting ht
    have hbroken : At m [] 0 (furiDoubleBreak emu) := ⟨h.mem, rfl, rfl, h.repeatNext⟩
    rcases left with _ | n
    · exact absurd rfl hworks
    · exact .inl ⟨fun h ↦ (by cases h), haddr, waiting_at hi hbroken⟩
  · obtain rfl : left = none := hcut
    exact .inr ⟨rfl, haddr, hleft⟩

theorem Left.nowMs (h : Left d sib e) (n : UInt32) : Left d sib { e with nowMs := n } := by
  refine ⟨?_, h.ident⟩
  cases h.behind with
  | idle hs hq => exact .idle hs hq
  | opcode hs hq => exact .opcode hs hq
  | stcsVal hs hq ha => exact .stcsVal hs hq ha
  | repeatVal hs hq => exact .repeatVal hs hq
  | ldsAddr hs hq hacc hneed hsize => exact .ldsAddr hs hq hacc hneed hsize
  | stsAddr hs hq hacc hneed hsize haddr => exact .stsAddr hs hq hacc hneed hsize haddr
  | stsData hs hq hacc hneed haddr => exact .stsData hs hq hacc hneed haddr
  | stptrAddr hs hq hacc hneed => exact .stptrAddr hs hq hacc hneed
  | stinc16 hs hq hr hleft hlow hhigh => exact .stinc16 hs hq hr hleft hlow hhigh
  | key hs hq hneed hacc => exact .key hs hq hneed hacc

theorem keeps_millis : Keeps d sib a24 (Waiting (Ident d sib) 0)
    (millis (abortTransport f)) (Waiting (Ident d sib) 0) := by
  rintro ⟨link, emu, left⟩ (⟨hworks, haddr, ht⟩ | ⟨hcut, haddr, hleft⟩)
  · obtain ⟨m, hi, h⟩ := at_of_waiting ht
    exact .inl ⟨hworks, haddr, waiting_at hi (at_nowMs emu _ h)⟩
  · exact .inr ⟨hcut, haddr, hleft.nowMs _⟩

end Calls

end UpdiProgrammer.HostTest
