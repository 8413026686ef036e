import UpdiProgrammer.HostTest.LinkRun
import UpdiProgrammer.HostTest.NonDestructive
import UpdiProgrammer.Library.Lockstep
import UpdiProgrammer.Reference.Application
import UpdiProgrammer.Updi.Trace

namespace UpdiProgrammer.Reference

open Library.Program Prog
open Updi (UpdiErr UpdiStatus UpdiLink LinkState LinkM UpdiTransport UpdiDevice linkLog LinkSends)
open Updi.UpdiTransport (Event)
open HostTest (delivered delivered_append word_low word_high)

/-- What is at the other end of the line: what a frame does to it, and what
comes back when some bytes are waited for. -/
structure Target (τ : Type) where
  hear : List UInt8 → τ → τ
  answer : (len : ℕ) → τ → List UInt8 × τ
  answer_length : ∀ len c, (answer len c).1.length ≤ len

section Ends

variable {τ κ : Type}

/-- The target as the C stack reaches it, beside a clock that it may have. -/
def Target.transport (g : Target τ) (clock : Option (κ → UInt32 × κ)) : UpdiTransport (τ × κ) where
  send data c := (true, g.hear data c.1, c.2)
  recv len _ c := ((g.answer len c.1).1, (g.answer len c.1).2, c.2)
  recv_length len _ c := g.answer_length len c.1
  doubleBreak := none
  millis := clock.map fun f c ↦ ((f c.2).1, c.1, (f c.2).2)

/-- The target behind a serial port, with the echo that was not read yet and
every byte that was written. -/
structure Wire (τ κ : Type) where
  target : τ
  echo : List UInt8
  written : List UInt8
  clock : κ

/-- The target as pymcuprog reaches it. -/
def Target.port (g : Target τ) (clock : κ → ℚ × κ) : SerialPort (Wire τ κ) where
  write data w :=
    { w with target := g.hear data w.target, echo := w.echo ++ data, written := w.written ++ data }
  read size w :=
    if size ≤ w.echo.length then (w.echo.take size, { w with echo := w.echo.drop size })
    else
      let (response, target) := g.answer (size - w.echo.length) w.target
      (w.echo ++ response, { w with target := target, echo := [] })
  time w := ((clock w.clock).1, { w with clock := (clock w.clock).2 })

end Ends

namespace UpdiDatalink

def ofWidth (addressBytes : ℕ) : UpdiDatalink := if addressBytes = 3 then bit24 else bit16

def wide : UpdiDatalink → Bool
  | bit16 => false
  | bit24 => true

theorem wide_ofWidth (addressBytes : ℕ) : (ofWidth addressBytes).wide = (addressBytes == 3) := by
  unfold ofWidth
  by_cases h : addressBytes = 3 <;> simp [h, wide]

theorem ofNat_and (n : ℕ) : UInt8.ofNat (n &&& 0xFF) = UInt8.ofNat n := by
  rw [Nat.and_two_pow_sub_one_eq_mod n 8]
  exact UInt8.ofNat_mod_size

theorem putAddress_bit16 (address : ℕ) :
    UpdiLink.putAddress false address = [byte0 address, byte1 address] := by
  rw [byte0, byte1, ofNat_and, ofNat_and, Nat.shiftRight_eq_div_pow]
  rfl

theorem putAddress_bit24 (address : ℕ) :
    UpdiLink.putAddress true address = [byte0 address, byte1 address, byte2 address] := by
  rw [byte0, byte1, byte2, ofNat_and, ofNat_and, ofNat_and, Nat.shiftRight_eq_div_pow,
    Nat.shiftRight_eq_div_pow]
  rfl

end UpdiDatalink

/-- How pymcuprog reports an acknowledge that did not arrive. -/
def ackErrors : List String :=
  ["Error with st", "Error with st_ptr", "ACK error with st_ptr_inc", "Error with st_ptr_inc",
    "ACK error with st_ptr_inc16"]

/-- An acknowledge did not arrive, or a status poll did not end ready, without
error and in time. -/
def PymcuprogError.Missed : PymcuprogError → Prop
  | serialUpdi msg => msg = "Failed to chip erase using key"
  | protocol msg => msg ∈ ackErrors
  | nvmTimeout _ => True
  | nvm _ _ => True
  | locked _ => True
  | index => False
  | unfinished => False

section Steps

variable {τ κ κ' : Type}

/-- The two stacks have sent the same bytes to a target in the same state. -/
structure InStep (dl : UpdiDatalink) (s : LinkState ((τ × κ) × List Event)) (w : Wire τ κ') :
    Prop where
  width : UpdiDatalink.ofWidth s.link.addressBytes = dl
  target : s.ctx.1.1 = w.target
  echo : w.echo = []
  bytes : delivered s.ctx.2 = w.written

variable (g : Target τ) (clock : Option (κ → UInt32 × κ)) (time : κ' → ℚ × κ') {dl : UpdiDatalink}
  {X : Excuse (LinkState ((τ × κ) × List Event)) UpdiErr PymcuprogError}

theorem send_run (data : List UInt8) {s : LinkState ((τ × κ) × List Event)} {w : Wire τ κ'}
    (h : InStep dl s w) :
    ∃ s' w', UpdiLink.send (g.transport clock).recorded data s = (.ok (), s') ∧
      UpdiPhysical.send (g.port time) data w = (.ok (), w') ∧ InStep dl s' w' ∧
      linkLog s' = linkLog s ++ [.sent data true] := by
  rcases s with ⟨link, ⟨x, k⟩, log⟩
  rcases w with ⟨x', echo, written, k'⟩
  obtain ⟨rfl, rfl, rfl, rfl⟩ := h
  have hbytes : delivered (log ++ [.sent data true]) = delivered log ++ data :=
    (delivered_append log _).trans (congrArg (delivered log ++ ·) (List.append_nil data))
  refine ⟨_, ⟨g.hear data x, [], delivered log ++ data, k'⟩, rfl, ?_, ⟨rfl, rfl, rfl, hbytes⟩, rfl⟩
  simp [UpdiPhysical.send, UpdiPhysical.read, Target.port, bind_run]

theorem receive_run {s : LinkState ((τ × κ) × List Event)} {w : Wire τ κ'} (h : InStep dl s w) :
    ∃ buf s' w', UpdiLink.recvRaw (g.transport clock).recorded 1 s = (.ok buf, s') ∧
      UpdiPhysical.receive (g.port time) 1 w = (.ok buf, w') ∧ InStep dl s' w' ∧
      linkLog s' = linkLog s ++ [.received 1 buf] ∧ (buf = [] ∨ ∃ b, buf = [b]) := by
  rcases s with ⟨link, ⟨x, k⟩, log⟩
  rcases w with ⟨x', echo, written, k'⟩
  obtain ⟨rfl, rfl, rfl, rfl⟩ := h
  have hbuf : (g.answer 1 x).1 = [] ∨ ∃ b, (g.answer 1 x).1 = [b] :=
    (Nat.le_one_iff_eq_zero_or_eq_one.mp (g.answer_length 1 x)).imp List.length_eq_zero_iff.mp
      List.length_eq_one_iff.mp
  have hbytes : delivered (log ++ [.received 1 (g.answer 1 x).1]) = delivered log :=
    (delivered_append log _).trans (List.append_nil _)
  refine ⟨(g.answer 1 x).1, _, ⟨(g.answer 1 x).2, [], delivered log, k'⟩, rfl, ?_,
    ⟨rfl, rfl, rfl, hbytes⟩, rfl, hbuf⟩
  rcases hbuf with hbuf | ⟨b, hbuf⟩ <;>
    simp [UpdiPhysical.receive, UpdiPhysical.read, Target.port, bind_run, hbuf]

theorem request_run (frame : List UInt8) {s : LinkState ((τ × κ) × List Event)} {w : Wire τ κ'}
    (h : InStep dl s w) :
    ∃ buf s' w', InStep dl s' w' ∧ linkLog s' = linkLog s ++ [.sent frame true, .received 1 buf] ∧
      (buf = [] ∨ ∃ b, buf = [b]) ∧
      (∀ {α : Type} (k : List UInt8 → LinkM ((τ × κ) × List Event) α),
        (UpdiLink.send (g.transport clock).recorded frame >>= fun _ ↦
          UpdiLink.recvRaw (g.transport clock).recorded 1 >>= k) s = k buf s') ∧
      ∀ {α : Type} (j : List UInt8 → PyM (Wire τ κ') α),
        (UpdiPhysical.send (g.port time) frame >>= fun _ ↦ UpdiPhysical.receive (g.port time) 1 >>=
          j) w = j buf w' := by
  obtain ⟨s₁, w₁, hc₁, hp₁, h₁, hlog₁⟩ := send_run g clock time frame h
  obtain ⟨buf, s₂, w₂, hc₂, hp₂, h₂, hlog₂, hbuf⟩ := receive_run g clock time h₁
  refine ⟨buf, s₂, w₂, h₂, ?_, hbuf, fun k ↦ ?_, fun j ↦ ?_⟩
  · rw [hlog₂, hlog₁, List.append_assoc]
    rfl
  · rw [bind_ok hc₁, bind_ok hc₂]
  · rw [bind_ok hp₁, bind_ok hp₂]

theorem lockstep_send (data : List UInt8) :
    Lockstep (InStep dl) X (UpdiLink.send (g.transport clock).recorded data)
      (UpdiPhysical.send (g.port time) data) (Return fun _ _ ↦ True) := by
  intro s w h
  obtain ⟨s', w', hc, hp, h', -⟩ := send_run g clock time data h
  rw [hc, hp]
  exact .inr ⟨h', .ok trivial⟩

theorem lockstep_checkAck (msg : String) :
    Lockstep (InStep dl) X (UpdiLink.recvAck (g.transport clock).recorded)
      (UpdiDatalink.checkAck (g.port time) msg) (Alike (fun _ _ ↦ True) fun _ _ ↦ True) := by
  intro s w h
  obtain ⟨buf, s', w', hc, hp, h', -, -⟩ := receive_run g clock time h
  rw [UpdiLink.recvAck, UpdiDatalink.checkAck, bind_ok hc, bind_ok hp]
  by_cases hbuf : buf = [Updi.phyAck]
  · rw [if_pos hbuf, if_pos hbuf]
    exact .inr ⟨h', .ok trivial⟩
  · rw [if_neg hbuf, if_neg hbuf]
    exact .inr ⟨h', .error trivial⟩

theorem addr24_run {s : LinkState ((τ × κ) × List Event)} {w : Wire τ κ'} (h : InStep dl s w) :
    ∃ a24 s', (UpdiLink.addr24 : LinkM ((τ × κ) × List Event) Bool) s = (.ok a24, s') ∧
      a24 = dl.wide ∧
      InStep dl s' w :=
  ⟨_, s, rfl, by rw [← h.width, UpdiDatalink.wide_ofWidth], h⟩

theorem millis_run {s : LinkState ((τ × κ) × List Event)} {w : Wire τ κ'} (h : InStep dl s w) :
    ∃ now s', UpdiLink.millis (g.transport clock).recorded s = (.ok now, s') ∧ True ∧
      InStep dl s' w := by
  cases clock with
  | none => exact ⟨0, s, rfl, trivial, h⟩
  | some f =>
    refine ⟨_, _, rfl, trivial, h.width, h.target, h.echo, ?_⟩
    exact ((delivered_append _ _).trans (List.append_nil _)).trans h.bytes

theorem expired_run (timeout : Timeout) {s : LinkState ((τ × κ) × List Event)} {w : Wire τ κ'}
    (h : InStep dl s w) :
    ∃ late w', timeout.expired (g.port time) w = (.ok late, w') ∧ True ∧ InStep dl s w' :=
  ⟨_, _, rfl, trivial, h.width, h.target, h.echo, h.bytes⟩

theorem start_run (timeoutMs : ℕ) {s : LinkState ((τ × κ) × List Event)} {w : Wire τ κ'}
    (h : InStep dl s w) :
    ∃ timeout w', Timeout.start (g.port time) timeoutMs w = (.ok timeout, w') ∧ True ∧
      InStep dl s w' :=
  ⟨_, _, rfl, trivial, h.width, h.target, h.echo, h.bytes⟩

end Steps

section Nvm

variable {τ κ κ' : Type} (g : Target τ) (clock : Option (κ → UInt32 × κ)) (time : κ' → ℚ × κ')
  (dl : UpdiDatalink)

/-- A status poll that failed, or an acknowledge that pymcuprog missed. -/
abbrev nvmExcuse : Excuse (LinkState ((τ × κ) × List Event)) UpdiErr PymcuprogError :=
  .ofStatus (fun e ↦ e = .timeout ∨ e = .nvm) PymcuprogError.Missed

abbrev Same : UpdiStatus → Except PymcuprogError Unit → Prop :=
  Alike (fun _ _ ↦ True) fun _ _ ↦ True

theorem same_error (e : UpdiErr) (f : PymcuprogError) : Same (.error e) (.error f) := .error trivial

theorem Return.same {r : UpdiStatus} {r' : Except PymcuprogError Unit}
    (h : Return (fun _ _ ↦ True) r r') : Same r r' :=
  h.mono (fun _ _ ↦ id) fun _ _ ↦ False.elim

theorem lockstep_ld (address : ℕ) :
    Lockstep (InStep dl) nvmExcuse (UpdiLink.ldByte (g.transport clock).recorded address)
      (dl.ld (g.port time) address) (Return (· = ·)) := by
  have hread (frame : List UInt8) {first : List UInt8 → PyM (Wire τ κ') UInt8}
      (hfirst : ∀ b, first [b] = pure b) :
      Lockstep (InStep dl) nvmExcuse
        (UpdiLink.send (g.transport clock).recorded frame >>= fun _ ↦
          UpdiLink.recvByte (g.transport clock).recorded)
        (UpdiPhysical.send (g.port time) frame >>= fun _ ↦
          UpdiPhysical.receive (g.port time) 1 >>= first)
        (Return (· = ·)) := by
    intro s w h
    obtain ⟨buf, s', w', h', -, hbuf, hc, hp⟩ := request_run g clock time frame h
    unfold UpdiLink.recvByte
    rw [hc, hp]
    rcases hbuf with rfl | ⟨b, rfl⟩
    · exact .inl (.inr (.inl ⟨.timeout, rfl, .inl rfl⟩))
    · dsimp only
      rw [hfirst]
      exact .inr ⟨h', .ok rfl⟩
  refine Lockstep.left (fun s w h ↦ addr24_run h) fun a24 ha ↦ ?_
  subst ha
  cases dl with
  | bit16 =>
    simp only [UpdiDatalink.wide, UpdiDatalink.putAddress_bit16]
    exact hread _ fun _ ↦ rfl
  | bit24 =>
    simp only [UpdiDatalink.wide, UpdiDatalink.putAddress_bit24]
    exact hread _ fun _ ↦ rfl

variable {exL : UpdiErr → Prop} {exR : PymcuprogError → Prop}

theorem lockstep_stDataPhase {values values' : List UInt8} (h : values' = values) :
    Lockstep (InStep dl) (.ofStatus exL exR)
      (UpdiLink.stDataPhase (g.transport clock).recorded values)
      (UpdiDatalink.stDataPhase (g.port time) values') Same := by
  subst h
  exact (lockstep_checkAck g clock time _).seq same_error fun _ _ _ ↦
    (lockstep_send g clock time values').seq same_error fun _ _ _ ↦ lockstep_checkAck g clock time _

theorem lockstep_addressed {op : Bool → UInt8} {address : ℕ} {k : LinkM ((τ × κ) × List Event) Unit}
    {j : PyM (Wire τ κ') Unit} (hk : Lockstep (InStep dl) (.ofStatus exL exR) k j Same) :
    Lockstep (InStep dl) (.ofStatus exL exR) (do
        let a24 ← UpdiLink.addr24
        UpdiLink.send (g.transport clock).recorded
          ([Updi.phySync, op a24] ++ UpdiLink.putAddress a24 address)
        k) (do
        match dl with
        | .bit16 => UpdiPhysical.send (g.port time) [Updi.phySync, op false, byte0 address,
          byte1 address]
        | .bit24 => UpdiPhysical.send (g.port time) [Updi.phySync, op true, byte0 address,
          byte1 address, byte2 address]
        j) Same := by
  refine Lockstep.left (fun s w h ↦ addr24_run h) fun a24 ha ↦ ?_
  subst ha
  cases dl with
  | bit16 =>
    simp only [UpdiDatalink.wide, UpdiDatalink.putAddress_bit16]
    exact (lockstep_send g clock time _).seq same_error fun _ _ _ ↦ hk
  | bit24 =>
    simp only [UpdiDatalink.wide, UpdiDatalink.putAddress_bit24]
    exact (lockstep_send g clock time _).seq same_error fun _ _ _ ↦ hk

theorem byte0_toNat (b : UInt8) : byte0 b.toNat = b :=
  (UpdiDatalink.ofNat_and _).trans UInt8.ofNat_toNat

theorem lockstep_st (address : ℕ) (value : UInt8) :
    Lockstep (InStep dl) (.ofStatus exL exR)
      (UpdiLink.stByte (g.transport clock).recorded address value)
      (dl.st (g.port time) address value.toNat) Same := by
  have hvalue : [byte0 value.toNat] = [value] := congrArg ([·]) (byte0_toNat value)
  cases dl <;> exact lockstep_addressed g clock time _ (lockstep_stDataPhase g clock time _ hvalue)

theorem byte0_word (lo hi : UInt8) : byte0 (lo.toNat + hi.toNat <<< 8) = lo := by
  rw [byte0, UpdiDatalink.ofNat_and, Nat.shiftLeft_eq]
  apply UInt8.toNat_inj.mp
  have hlo := lo.toNat_lt
  rw [UInt8.toNat_ofNat']
  omega

theorem byte1_word (lo hi : UInt8) : byte1 (lo.toNat + hi.toNat <<< 8) = hi := by
  rw [byte1, UpdiDatalink.ofNat_and, Nat.shiftLeft_eq, Nat.shiftRight_eq_div_pow]
  apply UInt8.toNat_inj.mp
  have hlo := lo.toNat_lt
  have hhi := hi.toNat_lt
  rw [UInt8.toNat_ofNat']
  omega

theorem lockstep_st16 (address : ℕ) (lo hi : UInt8) :
    Lockstep (InStep dl) (.ofStatus exL exR)
      (UpdiLink.st16 (g.transport clock).recorded address (lo.toUInt16 ||| hi.toUInt16 <<< 8))
      (dl.st16 (g.port time) address (lo.toNat + hi.toNat <<< 8)) Same := by
  have hvalues : [byte0 (lo.toNat + hi.toNat <<< 8), byte1 (lo.toNat + hi.toNat <<< 8)] =
      [(lo.toUInt16 ||| hi.toUInt16 <<< 8).toUInt8,
        ((lo.toUInt16 ||| hi.toUInt16 <<< 8) >>> 8).toUInt8] := by
    rw [word_low, word_high, byte0_word, byte1_word]
  cases dl <;> exact lockstep_addressed g clock time _ (lockstep_stDataPhase g clock time _ hvalues)

theorem lockstep_stPtr (address : ℕ) :
    Lockstep (InStep dl) (.ofStatus exL exR) (UpdiLink.stPtr (g.transport clock).recorded address)
      (dl.stPtr (g.port time) address) Same := by
  cases dl <;> exact lockstep_addressed g clock time _ (lockstep_checkAck g clock time _)

theorem lockstep_setAck (b : Bool) : Lockstep (InStep dl) (.ofStatus exL exR)
    (UpdiLink.setAckEnabled b : LinkM ((τ × κ) × List Event) Unit)
      (pure () : PyM (Wire τ κ') Unit) Same :=
  fun _ _ h ↦ .inr ⟨⟨h.width, h.target, h.echo, h.bytes⟩, .ok trivial⟩

theorem lockstep_disableAck :
    Lockstep (InStep dl) (.ofStatus exL exR) (UpdiLink.disableAck (g.transport clock).recorded)
    (UpdiDatalink.disableAck (g.port time)) Same := by
  rw [← bind_pure (UpdiDatalink.disableAck (g.port time))]
  exact (lockstep_send g clock time _).seq same_error fun _ _ _ ↦ lockstep_setAck dl false

theorem lockstep_enableAck :
    Lockstep (InStep dl) (.ofStatus exL exR) (UpdiLink.enableAck (g.transport clock).recorded)
    (UpdiDatalink.enableAck (g.port time)) Same := by
  rw [← bind_pure (UpdiDatalink.enableAck (g.port time))]
  exact (lockstep_send g clock time _).seq same_error fun _ _ _ ↦ lockstep_setAck dl true

theorem lockstep_block {data : List UInt8} (hlen : data.length ≠ 2) :
    Lockstep (InStep dl) (.ofStatus exL exR)
      (UpdiLink.stPtrInc16Block (g.transport clock).recorded data)
      (UpdiDatalink.stPtrInc16 (g.port time) data) Same := by
  unfold UpdiDatalink.stPtrInc16
  split
  · exact absurd rfl hlen
  · refine (lockstep_disableAck g clock time dl).seq same_error fun _ _ _ ↦ ?_
    refine (lockstep_send g clock time _).seq same_error fun _ _ _ ↦ ?_
    exact (lockstep_send g clock time data).seq same_error fun _ _ _ ↦
      lockstep_enableAck g clock time dl

theorem lockstep_repeat {count : ℕ} (hpos : 1 ≤ count) (hle : count ≤ Updi.maxRepeatSize) :
    Lockstep (InStep dl) (.ofStatus exL exR)
      (UpdiLink.repeatCount (g.transport clock).recorded count)
      (UpdiDatalink.repeats (g.port time) count) Same := by
  have hle' : count ≤ 256 := hle
  have hmod : (((count : ℤ) - 1) % 2 ^ 8).toNat = count - 1 := by omega
  have hcount : UInt8.ofInt ((count : ℤ) - 1) = UInt8.ofNat (count - 1) := by rw [UInt8.ofInt, hmod]
  have hc : ¬(count < 1 ∨ Updi.maxRepeatSize < count) := by omega
  have hp : ¬(((Constants.maxRepeatSize : ℕ) : ℤ) < (count : ℤ) - 1) := by
    change ¬((256 : ℤ) < (count : ℤ) - 1)
    omega
  rw [UpdiLink.repeatCount, UpdiDatalink.repeats, if_neg hc, if_neg hp, hcount]
  exact (lockstep_send g clock time _).mono fun _ _ ↦ Return.same

theorem lockstep_writeDataWords (address : ℕ) {data : List UInt8}
    (hlen : data.length ≠ 0 ∧ data.length % 2 = 0) :
    Lockstep (InStep dl) (.ofStatus exL exR)
      (UpdiLink.writeDataWords (g.transport clock).recorded address data)
      (UpdiReadWrite.writeDataWords (g.port time) dl address data) Same := by
  unfold UpdiLink.writeDataWords
  rw [if_neg (by omega)]
  split
  · exact lockstep_st16 g clock time dl address _ _
  · rename_i hdata
    have htwo : data.length ≠ 2 := by
      intro h
      obtain ⟨lo, hi, rfl⟩ := List.length_eq_two.mp h
      exact hdata lo hi rfl
    rw [UpdiReadWrite.writeDataWords_block (g.port time) dl address htwo]
    refine Lockstep.ite Iff.rfl (fun _ ↦ .fail (same_error _ _)) fun hmax ↦ ?_
    have hwords : 1 ≤ data.length / 2 ∧ data.length / 2 ≤ Updi.maxRepeatSize := by omega
    rw [Nat.shiftRight_eq_div_pow]
    refine (lockstep_stPtr g clock time dl address).seq same_error fun _ _ _ ↦ ?_
    refine (lockstep_repeat g clock time dl hwords.1 hwords.2).seq same_error fun _ _ _ ↦ ?_
    exact lockstep_block g clock time dl htwo

end Nvm

section Polls

variable {τ κ κ' : Type} (g : Target τ) (clock : Option (κ → UInt32 × κ)) (time : κ' → ℚ × κ')
  (dl : UpdiDatalink) (d : UpdiDevice) {turns : ℕ}

/-- The shape of the polling loop of both classes. -/
def PollsAs (loop : ℕ → PyM (Wire τ κ') Bool) (timeout : Timeout)
    (nvmError : UInt8 → PymcuprogError) : Prop :=
  ∀ n, loop (n + 1) = do
    if ← timeout.expired (g.port time) then pure false
    else do
      let status ← dl.ld (g.port time) (d.nvmctrlBase + d.nvmDesc.regStatus)
      if status &&& d.nvmDesc.statusWrerrMask ≠ 0 then fail (nvmError status)
      else if status &&& d.nvmDesc.statusBusyMask = 0 then pure true
      else loop n

theorem lockstep_poll (timeoutMs start : UInt32) {iters : ℕ} (hturns : iters ≤ turns)
    {timeout : Timeout} {loop : ℕ → PyM (Wire τ κ') Bool} {nvmError : UInt8 → PymcuprogError}
    {e : PymcuprogError} (hloop : PollsAs g time dl d loop timeout nvmError) (he : e.Missed) :
    Lockstep (InStep dl) nvmExcuse
      (Updi.UpdiNvm.waitNvmReadyLoop (g.transport clock).recorded d timeoutMs start iters)
      (orFail (loop turns) e) (Return fun _ _ ↦ True) := by
  induction iters generalizing turns with
  | zero => exact .excused_left (.inl rfl)
  | succ iters ih =>
    obtain ⟨n, rfl⟩ : ∃ n, turns = n + 1 := ⟨turns - 1, by omega⟩
    rw [hloop, orFail_bind]
    refine Lockstep.right (fun s w h ↦ expired_run g time timeout h) fun late _ ↦ ?_
    rw [orFail_ite, orFail_false, orFail_bind]
    by_cases hlate : late = true
    · rw [if_pos hlate]
      exact .excused_right he
    rw [if_neg hlate]
    refine (lockstep_ld g clock time dl _).bind (fun _ ↦ Excuse.keptBy_ofStatus)
      (fun _ _ h ↦ h.elim) ?_
    rintro status _ rfl
    rw [orFail_ite, orFail_ite, orFail_fail, orFail_true]
    refine Lockstep.ite Iff.rfl (fun _ ↦ .excused_left (.inr rfl)) fun _ ↦
      Lockstep.ite Iff.rfl (fun _ ↦ .pure (.ok trivial)) fun _ ↦ ?_
    refine Lockstep.left (fun s w h ↦ millis_run g clock h) fun now _ ↦ ?_
    by_cases hexpired : timeoutMs ≤ now - start
    · rw [if_pos hexpired]
      exact .excused_left (.inl rfl)
    · rw [if_neg hexpired]
      exact ih (by omega)

variable {d} in
theorem pollsAs_p0 (hv : d.nvmVariant = .p0) (timeout : Timeout) :
    PollsAs g time dl d (NvmUpdiP0.waitNvmReadyLoop (g.port time) dl
      ⟨d.nvmctrlBase⟩ timeout) timeout fun _ ↦ .nvm "NVM error" 1 := by
  intro n
  have hdesc : d.nvmDesc = Updi.nvmDescP0 := by rw [UpdiDevice.nvmDesc, hv]
  rw [hdesc]
  rfl

variable {d} in
theorem pollsAs_p3 (hv : d.nvmVariant = .p3) (timeout : Timeout) :
    PollsAs g time dl d (NvmUpdiP3.waitNvmReadyLoop (g.port time) dl
      ⟨d.nvmctrlBase⟩ timeout) timeout
      fun s ↦ .nvm "NVM error" (s >>> NvmUpdiP3.statusWriteErrorBp).toNat := by
  intro n
  have hdesc : d.nvmDesc = Updi.nvmDescP3 := by rw [UpdiDevice.nvmDesc, hv]
  rw [hdesc]
  rfl

theorem finishCommand_false (t : UpdiTransport ((τ × κ) × List Event)) (timeoutMs : UInt32) :
    Updi.UpdiNvm.finishCommand t d timeoutMs false = Updi.UpdiNvm.waitNvmReady t d timeoutMs := rfl

theorem missed_of_checkAck {msg : String} (hmsg : msg ∈ ackErrors) (p : SerialPort (Wire τ κ')) :
    Triple (fun _ ↦ True) (UpdiDatalink.checkAck p msg) (fun _ _ ↦ True) fun e _ ↦ e.Missed := by
  have hread (n : ℕ) : Triple (fun _ ↦ True) (UpdiPhysical.receive p n) (fun _ _ ↦ True)
      fun e _ ↦ e.Missed := by
    induction n with
    | zero => exact .pure fun _ ↦ id
    | succ n ih =>
      refine Triple.bind (M := fun _ _ ↦ True) (fun _ _ ↦ trivial) fun character ↦ ?_
      cases character with
      | nil => exact .pure fun _ ↦ id
      | cons c rest => exact ih.bind fun response ↦ .pure fun _ ↦ id
  exact (hread 1).bind fun buf ↦ .ite (fun _ ↦ .pure fun _ ↦ id) fun _ ↦ .fail fun _ _ ↦ hmsg

/-- A byte store of pymcuprog fails for want of an acknowledge only. -/
theorem missed_of_st (p : SerialPort (Wire τ κ')) (address value : ℕ) :
    Triple (fun _ ↦ True) (dl.st p address value) (fun _ _ ↦ True) fun e _ ↦ e.Missed := by
  have hsend (data : List UInt8) : Triple (fun _ ↦ True) (UpdiPhysical.send p data) (fun _ _ ↦ True)
      fun e _ ↦ e.Missed := fun _ _ ↦ trivial
  have hack := missed_of_checkAck (List.mem_cons_self : "Error with st" ∈ ackErrors) p
  have hdata : Triple (fun _ ↦ True) (UpdiDatalink.stDataPhase p [byte0 value]) (fun _ _ ↦ True)
      fun e _ ↦ e.Missed :=
    hack.bind fun _ ↦ (hsend _).bind fun _ ↦ hack
  cases dl <;> exact (hsend _).bind fun _ ↦ hdata

/-- A class of pymcuprog whose waits and commands keep step with those of the port. -/
structure Drives (wait : PyM (Wire τ κ') Bool) (execute : ℕ → PyM (Wire τ κ') Unit) : Prop where
  waits : ∀ timeoutMs e, e.Missed → Lockstep (InStep dl) nvmExcuse
    (Updi.UpdiNvm.waitNvmReady (g.transport clock).recorded d timeoutMs) (orFail wait e)
      (Return fun _ _ ↦ True)
  executes : ∀ exL exR (command : UInt8), Lockstep (InStep dl) (.ofStatus exL exR)
    (Updi.UpdiNvm.executeNvmCommand (g.transport clock).recorded d command)
      (execute command.toNat) Same
  missed : ∀ command, Triple (fun _ ↦ True) (execute command) (fun _ _ ↦ True) fun e _ ↦ e.Missed

theorem lockstep_wait (hturns : Updi.nvmMaxPollIters ≤ turns)
    {loop : Timeout → ℕ → PyM (Wire τ κ') Bool} {nvmError : UInt8 → PymcuprogError}
    (hloop : ∀ timeout, PollsAs g time dl d (loop timeout) timeout nvmError) (timeoutMs : UInt32)
    {e : PymcuprogError} (he : e.Missed) :
    Lockstep (InStep dl) nvmExcuse
      (Updi.UpdiNvm.waitNvmReady (g.transport clock).recorded d timeoutMs)
      (orFail (do
        let timeout ← Timeout.start (g.port time) 100
        loop timeout turns) e) (Return fun _ _ ↦ True) := by
  rw [orFail_bind]
  refine Lockstep.left (fun s w h ↦ millis_run g clock h) fun start _ ↦ ?_
  refine Lockstep.right (fun s w h ↦ start_run g time 100 h) fun timeout _ ↦ ?_
  exact lockstep_poll g clock time dl d timeoutMs start hturns (hloop timeout) he

variable {d} in
theorem drives_p0 (hturns : Updi.nvmMaxPollIters ≤ turns) (hv : d.nvmVariant = .p0) :
    Drives g clock dl d (NvmUpdiP0.waitNvmReady (g.port time) dl turns ⟨d.nvmctrlBase⟩)
      (NvmUpdiP0.executeNvmCommand (g.port time) dl ⟨d.nvmctrlBase⟩) where
  waits timeoutMs e he :=
    lockstep_wait g clock time dl d hturns (pollsAs_p0 g time dl hv) timeoutMs he
  executes exL exR command := by
    have hdesc : d.nvmDesc = Updi.nvmDescP0 := by rw [UpdiDevice.nvmDesc, hv]
    unfold Updi.UpdiNvm.executeNvmCommand
    rw [hdesc]
    exact lockstep_st g clock time dl _ command
  missed command := missed_of_st dl _ _ command

variable {d} in
theorem drives_p3 (hturns : Updi.nvmMaxPollIters ≤ turns) (hv : d.nvmVariant = .p3) :
    Drives g clock dl d (NvmUpdiP3.waitNvmReady (g.port time) dl turns ⟨d.nvmctrlBase⟩)
      (NvmUpdiP3.executeNvmCommand (g.port time) dl ⟨d.nvmctrlBase⟩) where
  waits timeoutMs e he :=
    lockstep_wait g clock time dl d hturns (pollsAs_p3 g time dl hv) timeoutMs he
  executes exL exR command := by
    have hdesc : d.nvmDesc = Updi.nvmDescP3 := by rw [UpdiDevice.nvmDesc, hv]
    unfold Updi.UpdiNvm.executeNvmCommand
    rw [hdesc]
    exact lockstep_st g clock time dl _ command
  missed command := missed_of_st dl _ _ command

end Polls

section Finish

variable {τ κ κ' : Type} {g : Target τ} {clock : Option (κ → UInt32 × κ)} {dl : UpdiDatalink}
  {d : UpdiDevice} {wait : PyM (Wire τ κ') Bool} {execute : ℕ → PyM (Wire τ κ') Unit}

theorem cmdNocmd_eq (d : UpdiDevice) : d.nvmDesc.cmdNocmd = 0 := by
  unfold UpdiDevice.nvmDesc
  cases d.nvmVariant <;> rfl

theorem Drives.finish_uncleared (h : Drives g clock dl d wait execute) (timeoutMs : UInt32)
    {e : PymcuprogError} (he : e.Missed) :
    Lockstep (InStep dl) nvmExcuse
      (Updi.UpdiNvm.finishCommand (g.transport clock).recorded d timeoutMs false)
      (orFail wait e) Same := by
  rw [finishCommand_false]
  exact (h.waits timeoutMs e he).mono fun _ _ ↦ Return.same

theorem Drives.finish (h : Drives g clock dl d wait execute) (timeoutMs : UInt32)
    {e : PymcuprogError} (he : e.Missed) :
    Lockstep (InStep dl) nvmExcuse
      (Updi.UpdiNvm.finishCommand (g.transport clock).recorded d timeoutMs true)
      (do
        orFail wait e
        execute 0) Same := by
  intro s w hs
  rcases hwait : Updi.UpdiNvm.waitNvmReady (g.transport clock).recorded d timeoutMs s with ⟨r, s'⟩
  rcases hready : orFail wait e w with ⟨r', w'⟩
  have hready' := h.waits timeoutMs e he s w hs
  have hclear : Lockstep (InStep dl) (.ofStatus (fun _ ↦ False) PymcuprogError.Missed)
      (Updi.UpdiNvm.executeNvmCommand (g.transport clock).recorded d 0) (execute 0) Same :=
        h.executes _ _ 0
  rw [hwait, hready] at hready'
  have hleft : Updi.UpdiNvm.finishCommand (g.transport clock).recorded d timeoutMs true s =
      (r, (Updi.UpdiNvm.executeNvmCommand (g.transport clock).recorded d
        d.nvmDesc.cmdNocmd s').2) := by
    rw [Updi.UpdiNvm.finishCommand, attempt_bind_run, hwait]
    rfl
  rw [hleft]
  rcases hready' with (hfalse | ⟨f, rfl, hf⟩ | ⟨f, rfl, hf⟩) | ⟨hs', hret⟩
  · exact hfalse.elim
  · exact .inl (.inr (.inl ⟨f, rfl, hf⟩))
  · rw [bind_error hready]
    exact .inl (.inr (.inr ⟨f, rfl, hf⟩))
  · cases hret with
    | error hfalse => exact hfalse.elim
    | ok _ =>
      rw [bind_ok hready]
      rw [cmdNocmd_eq]
      have hmissed := h.missed 0 w' trivial
      rcases hclear s' w' hs' with (hfalse | ⟨f, -, hf⟩ | ⟨f, hr, hf⟩) | ⟨hs'', -⟩
      · exact hfalse.elim
      · exact hf.elim
      · exact .inl (.inr (.inr ⟨f, hr, hf⟩))
      · rcases hr : execute 0 w' with ⟨f | x, w''⟩
        · rw [hr] at hmissed
          exact .inl (.inr (.inr ⟨f, rfl, hmissed⟩))
        · rw [hr] at hs''
          exact .inr ⟨hs'', .ok trivial⟩

/-- The same where the exception is raised after the command is cleared. -/
theorem Drives.finish_late (h : Drives g clock dl d wait execute) (timeoutMs : UInt32)
    {e : PymcuprogError} (he : e.Missed) :
    Lockstep (InStep dl) nvmExcuse
      (Updi.UpdiNvm.finishCommand (g.transport clock).recorded d timeoutMs true)
      (do
        let status ← wait
        execute 0
        if status then pure () else fail e) Same := by
  intro s w hs
  have hfinish := h.finish timeoutMs he s w hs
  have hmissed := h.missed 0
  rcases hw : wait w with ⟨f | status, w'⟩
  · rw [bind_error hw]
    rwa [orFail, bind_error (bind_error hw _)] at hfinish
  rw [bind_ok hw]
  cases status with
  | true =>
    have hready : orFail wait e w = (.ok (), w') := bind_ok hw _
    rw [bind_ok hready] at hfinish
    have hpure : (execute 0 >>= fun _ ↦ if true = true then pure () else fail e) = execute 0 :=
      bind_pure _
    rwa [hpure]
  | false =>
    refine .inl (.inr (.inr ?_))
    have hlate :=
      (hmissed.bind (k := fun _ ↦ (fail e : PyM (Wire τ κ') Unit)) (Q := fun _ _ ↦ False)
      fun _ ↦ .fail fun _ _ ↦ he) w' trivial
    rcases hr : (execute 0 >>= fun _ ↦ (fail e : PyM (Wire τ κ') Unit)) w' with ⟨f | x, w''⟩
    · rw [hr] at hlate
      exact ⟨f, congrArg Prod.fst hr, hlate⟩
    · rw [hr] at hlate
      exact hlate.elim

theorem Drives.chipErase (h : Drives g clock dl d wait execute) {e : PymcuprogError} (he : e.Missed)
    {finish : PyM (Wire τ κ') Unit} (hfinish : ∀ timeoutMs, Lockstep (InStep dl) nvmExcuse
      (Updi.UpdiNvm.finishCommand (g.transport clock).recorded d timeoutMs d.nvmDesc.clearCmdAfter)
        finish Same) :
    Lockstep (InStep dl) nvmExcuse (Updi.UpdiNvm.chipErase (g.transport clock).recorded d) (do
      orFail wait e
      execute d.nvmDesc.cmdChipErase.toNat
      finish) Same := by
  refine (h.waits 100 e he).seq same_error fun _ _ _ ↦ ?_
  exact (h.executes _ _ _).seq same_error fun _ _ _ ↦ hfinish 500

theorem Drives.eraseFlashPage (h : Drives g clock dl d wait execute) {e : PymcuprogError}
    (he : e.Missed) {finish : PyM (Wire τ κ') Unit}
    (hfinish : ∀ timeoutMs,
      Lockstep (InStep dl) nvmExcuse
        (Updi.UpdiNvm.finishCommand (g.transport clock).recorded d timeoutMs
          d.nvmDesc.clearCmdAfter) finish Same)
    (time : κ' → ℚ × κ') (address : ℕ) :
    Lockstep (InStep dl) nvmExcuse
      (Updi.UpdiNvm.eraseFlashPage (g.transport clock).recorded d address) (do
      orFail wait e
      UpdiReadWrite.writeData (g.port time) dl address [0xFF]
      execute d.nvmDesc.cmdErasePage.toNat
      finish) Same := by
  refine (h.waits 100 e he).seq same_error fun _ _ _ ↦ ?_
  refine (lockstep_st g clock time dl address 0xFF).seq same_error fun _ _ _ ↦ ?_
  exact (h.executes _ _ _).seq same_error fun _ _ _ ↦ hfinish 100

/-- A page, or a fuse as a page of one byte, goes through the page buffer. -/
theorem Drives.page (h : Drives g clock dl d wait execute) {e f : PymcuprogError} (he : e.Missed)
    (hf : f.Missed) {finish load : PyM (Wire τ κ') Unit} {loadC : LinkM ((τ × κ) × List Event) Unit}
    {clear : Bool}
    (hfinish : Lockstep (InStep dl) nvmExcuse
      (Updi.UpdiNvm.finishCommand (g.transport clock).recorded d 100 clear) finish Same)
    (hload : Lockstep (InStep dl) nvmExcuse loadC load Same) (clearBuffer commit : UInt8) :
    Lockstep (InStep dl) nvmExcuse (do
      Updi.UpdiNvm.waitNvmReady (g.transport clock).recorded d 100
      Updi.UpdiNvm.executeNvmCommand (g.transport clock).recorded d clearBuffer
      Updi.UpdiNvm.waitNvmReady (g.transport clock).recorded d 100
      loadC
      Updi.UpdiNvm.executeNvmCommand (g.transport clock).recorded d commit
      Updi.UpdiNvm.finishCommand (g.transport clock).recorded d 100 clear) (do
      orFail wait e
      execute clearBuffer.toNat
      orFail wait f
      load
      execute commit.toNat
      finish) Same := by
  refine (h.waits 100 e he).seq same_error fun _ _ _ ↦ ?_
  refine (h.executes _ _ _).seq same_error fun _ _ _ ↦ ?_
  refine (h.waits 100 f hf).seq same_error fun _ _ _ ↦ ?_
  refine hload.seq same_error fun _ _ _ ↦ ?_
  exact (h.executes _ _ _).seq same_error fun _ _ _ ↦ hfinish

end Finish

section Nvm

variable {τ κ κ' : Type} (g : Target τ) (clock : Option (κ → UInt32 × κ)) (time : κ' → ℚ × κ')
  (dl : UpdiDatalink) {d : UpdiDevice} {turns : ℕ}

theorem lockstep_writeByte (address : ℕ) (value : UInt8) {value' : ℕ} (h : value' = value.toNat) :
    Lockstep (InStep dl) nvmExcuse (UpdiLink.stByte (g.transport clock).recorded address value)
      (UpdiReadWrite.writeByte (g.port time) dl address value') Same := by
  subst h
  exact lockstep_st g clock time dl address value

variable (hturns : Updi.nvmMaxPollIters ≤ turns)
include hturns

theorem lockstep_chipErase_p0 (hv : d.nvmVariant = .p0) :
    Lockstep (InStep dl) nvmExcuse (Updi.UpdiNvm.chipErase (g.transport clock).recorded d)
      (NvmUpdiP0.chipErase (g.port time) dl turns ⟨d.nvmctrlBase⟩) Same := by
  have h := drives_p0 g clock time dl hturns hv
  cases d
  cases hv
  exact h.chipErase (e := .nvmTimeout _) trivial fun timeoutMs ↦
    h.finish_uncleared timeoutMs (e := .nvmTimeout _) trivial

theorem lockstep_chipErase_p3 (hv : d.nvmVariant = .p3) :
    Lockstep (InStep dl) nvmExcuse (Updi.UpdiNvm.chipErase (g.transport clock).recorded d)
      (NvmUpdiP3.chipErase (g.port time) dl turns ⟨d.nvmctrlBase⟩) Same := by
  have h := drives_p3 g clock time dl hturns hv
  cases d
  cases hv
  exact h.chipErase (e := .nvmTimeout _) trivial fun timeoutMs ↦
    h.finish_late timeoutMs (e := .nvmTimeout _) trivial

theorem lockstep_eraseFlashPage_p0 (hv : d.nvmVariant = .p0) (address : ℕ) :
    Lockstep (InStep dl) nvmExcuse
      (Updi.UpdiNvm.eraseFlashPage (g.transport clock).recorded d address)
      (NvmUpdiP0.eraseFlashPage (g.port time) dl turns ⟨d.nvmctrlBase⟩ address) Same := by
  have h := drives_p0 g clock time dl hturns hv
  cases d
  cases hv
  exact h.eraseFlashPage (e := .nvmTimeout _) trivial
    (fun timeoutMs ↦ h.finish_uncleared timeoutMs (e := .nvmTimeout _) trivial) time address

theorem lockstep_eraseFlashPage_p3 (hv : d.nvmVariant = .p3) (address : ℕ) :
    Lockstep (InStep dl) nvmExcuse
      (Updi.UpdiNvm.eraseFlashPage (g.transport clock).recorded d address)
      (NvmUpdiP3.eraseFlashPage (g.port time) dl turns ⟨d.nvmctrlBase⟩ address) Same := by
  have h := drives_p3 g clock time dl hturns hv
  cases d
  cases hv
  exact h.eraseFlashPage (e := .nvmTimeout _) trivial
    (fun timeoutMs ↦ h.finish_late timeoutMs (e := .nvmTimeout _) trivial) time address

theorem lockstep_writeFlashPage_p0 (hv : d.nvmVariant = .p0) (address : ℕ) {data : List UInt8}
    (hlen : data.length ≠ 0 ∧ data.length % 2 = 0) (hpage : data.length ≤ d.flashPageSize) :
    Lockstep (InStep dl) nvmExcuse
      (Updi.UpdiNvm.writeFlashPage (g.transport clock).recorded d address data)
      (NvmUpdiP0.writeFlash (g.port time) dl turns ⟨d.nvmctrlBase⟩ address data) Same := by
  have h := drives_p0 g clock time dl hturns hv
  unfold Updi.UpdiNvm.writeFlashPage
  rw [if_neg (by omega), if_neg (by omega)]
  cases d
  cases hv
  exact h.page (e := .nvmTimeout _) (f := .nvmTimeout _) trivial trivial
    (h.finish_uncleared 100 (e := .nvmTimeout _) trivial)
      (lockstep_writeDataWords g clock time dl address hlen) _ _

theorem lockstep_writeFlashPage_p3 (hv : d.nvmVariant = .p3) (address : ℕ) {data : List UInt8}
    (hlen : data.length ≠ 0 ∧ data.length % 2 = 0) (hpage : data.length ≤ d.flashPageSize) :
    Lockstep (InStep dl) nvmExcuse
      (Updi.UpdiNvm.writeFlashPage (g.transport clock).recorded d address data)
      (NvmUpdiP3.writeFlash (g.port time) dl turns ⟨d.nvmctrlBase⟩ address data) Same := by
  have h := drives_p3 g clock time dl hturns hv
  unfold Updi.UpdiNvm.writeFlashPage
  rw [if_neg (by omega), if_neg (by omega)]
  cases d
  cases hv
  exact h.page (e := .nvmTimeout _) (f := .nvmTimeout _) trivial trivial
    (h.finish 100 (e := .nvmTimeout _) trivial)
      (lockstep_writeDataWords g clock time dl address hlen) _ _

theorem lockstep_writeFuse_p0 (hv : d.nvmVariant = .p0) {index : UInt8}
    (hindex : index.toNat < d.fusesSize) (value : UInt8) :
    Lockstep (InStep dl) nvmExcuse
      (Updi.UpdiNvm.writeFuse (g.transport clock).recorded d index value)
      (NvmUpdiP0.writeFuse (g.port time) dl turns ⟨d.nvmctrlBase⟩ (d.fusesAddress + index.toNat)
        [value]) Same := by
  have h := drives_p0 g clock time dl hturns hv
  have hdesc : d.nvmDesc = Updi.nvmDescP0 := by rw [UpdiDevice.nvmDesc, hv]
  have hmask (n : ℕ) : n &&& 0xFF = (UInt8.ofNat n).toNat := Nat.and_two_pow_sub_one_eq_mod n 8
  have hvalue : value.toNat &&& 0xFF = value.toNat := by rw [hmask, UInt8.ofNat_toNat]
  have hshift (n : ℕ) : (n >>> 8) &&& 0xFF = (UInt8.ofNat (n / 0x100)).toNat := by
    rw [hmask, Nat.shiftRight_eq_div_pow]
  unfold Updi.UpdiNvm.writeFuse
  rw [hdesc, if_neg (by omega)]
  refine (h.waits 100 (.nvmTimeout _) trivial).seq same_error fun _ _ _ ↦ ?_
  refine (lockstep_writeByte g clock time dl _ _ (hmask _)).seq same_error fun _ _ _ ↦ ?_
  refine (lockstep_writeByte g clock time dl _ _ (hshift _)).seq same_error fun _ _ _ ↦ ?_
  refine (lockstep_writeByte g clock time dl _ _ hvalue).seq same_error fun _ _ _ ↦ ?_
  refine (h.executes _ _ _).seq same_error fun _ _ _ ↦ ?_
  exact (h.waits 100 (.nvmTimeout _) trivial).mono fun _ _ ↦ Return.same

theorem lockstep_writeFuse_p3 (hv : d.nvmVariant = .p3) {index : UInt8}
    (hindex : index.toNat < d.fusesSize) (value : UInt8) :
    Lockstep (InStep dl) nvmExcuse
      (Updi.UpdiNvm.writeFuse (g.transport clock).recorded d index value)
      (NvmUpdiP3.writeFuse (g.port time) dl turns ⟨d.nvmctrlBase⟩ (d.fusesAddress + index.toNat)
        [value]) Same := by
  have h := drives_p3 g clock time dl hturns hv
  unfold Updi.UpdiNvm.writeFuse
  rw [if_neg (by omega)]
  cases d
  cases hv
  exact h.page (e := .nvmTimeout _) (f := .nvmTimeout _) trivial trivial
    (h.finish 100 (e := .nvmTimeout _) trivial) (lockstep_st g clock time dl _ value) _ _

end Nvm

end UpdiProgrammer.Reference
