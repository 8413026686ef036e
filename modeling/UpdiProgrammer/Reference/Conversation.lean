import UpdiProgrammer.Reference.ByteStream

namespace UpdiProgrammer.Reference

open Library.Program Prog
open Updi (UpdiErr UpdiStatus UpdiLink LinkState LinkM UpdiTransport UpdiDevice linkLog LinkSends)
open Updi.UpdiTransport (Event)
open HostTest (delivered delivered_append)

/-- To wait for several bytes is to wait for one after the other, up to the first
that does not come. -/
structure Target.Streams {τ : Type} (g : Target τ) : Prop where
  nothing : ∀ x, g.answer 0 x = ([], x)
  silence : ∀ n x x', g.answer 1 x = ([], x') → g.answer (n + 1) x = ([], x')
  byte : ∀ n x b x', g.answer 1 x = ([b], x') →
    g.answer (n + 1) x = (b :: (g.answer n x').1, (g.answer n x').2)

section Reads

variable {τ κ κ' : Type} {g : Target τ} (hg : g.Streams) (clock : Option (κ → UInt32 × κ))
  (time : κ' → ℚ × κ') {dl : UpdiDatalink} {exL : UpdiErr → Prop} {exR : PymcuprogError → Prop}

abbrev SameData : Except UpdiErr (List UInt8) → Except PymcuprogError (List UInt8) → Prop :=
  Alike (· = ·) fun _ _ ↦ True

theorem sameData_error (e : UpdiErr) (f : PymcuprogError) : SameData (.error e) (.error f) :=
  .error trivial

include hg in
theorem receive_streams (size : ℕ) {w : Wire τ κ'} (hecho : w.echo = []) :
    UpdiPhysical.receive (g.port time) size w =
      (.ok (g.answer size w.target).1, { w with target := (g.answer size w.target).2 }) := by
  induction size generalizing w with
  | zero =>
    rw [hg.nothing]
    rfl
  | succ n ih =>
    have hread : UpdiPhysical.read (g.port time) 1 w =
        (.ok (g.answer 1 w.target).1, { w with target := (g.answer 1 w.target).2 }) := by
      simp [UpdiPhysical.read, Target.port, hecho]
    have hlen := g.answer_length 1 w.target
    rw [UpdiPhysical.receive, bind_ok hread]
    rcases hone : g.answer 1 w.target with ⟨_ | ⟨b, rest⟩, x⟩
    · rw [hg.silence n _ _ hone]
      rfl
    · rw [hone, List.length_cons] at hlen
      obtain rfl : rest = [] :=
        List.length_eq_zero_iff.mp (Nat.le_zero.mp (Nat.le_of_succ_le_succ hlen))
      have hrest := @ih { w with target := x } hecho
      rw [hg.byte n _ _ _ hone]
      dsimp only
      rw [bind_ok hrest]
      rfl

include hg in
theorem load_run (frame : List UInt8) (size : ℕ) {s : LinkState ((τ × κ) × List Event)}
    {w : Wire τ κ'} (h : InStep dl s w) : ∃ buf s' w', InStep dl s' w' ∧
      (UpdiLink.send (g.transport clock).recorded frame >>= fun _ ↦
        UpdiLink.recvAll (g.transport clock).recorded size) s =
          (if buf.length = size then .ok buf else .error .timeout, s') ∧
      (UpdiPhysical.send (g.port time) frame >>= fun _ ↦
        UpdiPhysical.receive (g.port time) size) w =
        (.ok buf, w') := by
  obtain ⟨⟨link, ⟨x, k⟩, log⟩, ⟨x', echo, written, k'⟩, hc, hp, hstep, -⟩ :=
    send_run g clock time frame h
  obtain ⟨rfl, rfl, rfl, rfl⟩ := hstep
  have hbytes : delivered (log ++ [.received size (g.answer size x).1]) = delivered log :=
    (delivered_append log _).trans (List.append_nil _)
  refine ⟨(g.answer size x).1,
    ⟨link, ((g.answer size x).2, k), log ++ [.received size (g.answer size x).1]⟩,
    ⟨(g.answer size x).2, [], delivered log, k'⟩, ⟨rfl, rfl, rfl, hbytes⟩, ?_, ?_⟩
  · rw [bind_ok hc]
    have hrecv : UpdiLink.recvRaw (g.transport clock).recorded size
        (⟨link, (x, k), log⟩ : LinkState ((τ × κ) × List Event)) =
        (.ok (g.answer size x).1,
          ⟨link, ((g.answer size x).2, k), log ++ [.received size (g.answer size x).1]⟩) := rfl
    rw [UpdiLink.recvAll, bind_ok hrecv]
    split_ifs <;> rfl
  · rw [bind_ok hp]
    exact receive_streams hg time size rfl

include hg in
theorem lockstep_load (htimeout : exL .timeout) (frame : List UInt8) (size : ℕ) :
    Lockstep (InStep dl) (.ofStatus exL exR)
      (UpdiLink.send (g.transport clock).recorded frame >>= fun _ ↦
        UpdiLink.recvAll (g.transport clock).recorded size)
      (UpdiPhysical.send (g.port time) frame >>= fun _ ↦ UpdiPhysical.receive (g.port time) size)
        SameData := by
  intro s w h
  obtain ⟨buf, s', w', h', hc, hp⟩ := load_run hg clock time frame size h
  rw [hc, hp]
  split_ifs
  · exact .inr ⟨h', .ok rfl⟩
  · exact .inl (.inr (.inl ⟨.timeout, rfl, htimeout⟩))

theorem lockstep_ptr_repeat (address : ℕ) {count : ℕ} (hle : count ≤ Updi.maxRepeatSize)
    {load : LinkM ((τ × κ) × List Event) (List UInt8)} {load' : PyM (Wire τ κ') (List UInt8)}
    (hload : Lockstep (InStep dl) (.ofStatus exL exR) load load' SameData) :
    Lockstep (InStep dl) (.ofStatus exL exR) (do
        UpdiLink.stPtr (g.transport clock).recorded address
        if 1 < count then UpdiLink.repeatCount (g.transport clock).recorded count
        load) (do
        dl.stPtr (g.port time) address
        if 1 < count then UpdiDatalink.repeats (g.port time) count
        load') SameData := by
  refine (lockstep_stPtr g clock time dl address).seq sameData_error fun _ _ _ ↦ ?_
  refine Lockstep.ite Iff.rfl (fun hcount ↦ ?_) fun _ ↦ hload
  exact (lockstep_repeat g clock time dl hcount.le hle).seq sameData_error fun _ _ _ ↦ hload

include hg in
theorem lockstep_readData (htimeout : exL .timeout) (address size : ℕ) :
    Lockstep (InStep dl) (.ofStatus exL exR)
      (UpdiLink.readData (g.transport clock).recorded address size)
      (UpdiReadWrite.readData (g.port time) dl address size) SameData := by
  refine Lockstep.ite Iff.rfl (fun _ ↦ .fail (sameData_error _ _)) fun hmax ↦ ?_
  exact lockstep_ptr_repeat clock time address (Nat.le_of_not_lt hmax)
    (lockstep_load hg clock time htimeout _ size)

include hg in
theorem lockstep_readDataWords (htimeout : exL .timeout) (address words : ℕ) :
    Lockstep (InStep dl) (.ofStatus exL exR)
      (UpdiLink.readDataWords (g.transport clock).recorded address words)
      (UpdiReadWrite.readDataWords (g.port time) dl address words) SameData := by
  refine Lockstep.ite Iff.rfl (fun _ ↦ .fail (sameData_error _ _)) fun hmax ↦ ?_
  have hle : words ≤ Updi.maxRepeatSize := (Nat.le_of_not_lt hmax).trans (Nat.div_le_self _ _)
  have hbytes : words <<< 1 = 2 * words := (Nat.shiftLeft_eq words 1).trans (Nat.mul_comm words 2)
  refine lockstep_ptr_repeat clock time address hle ?_
  rw [UpdiDatalink.ldPtrInc16, hbytes]
  exact lockstep_load hg clock time htimeout _ (2 * words)

include hg in
/-- The chunk of pymcuprog has the largest size until the turn that ends the loop. -/
theorem lockstep_readChunks (htimeout : exL .timeout) (fuel address size chunkSize : ℕ)
    (hchunk : size = 0 ∨ chunkSize = NvmAccessProviderSerial.readChunkSize) :
    Lockstep (InStep dl) (.ofStatus exL exR)
      (Updi.UpdiNvm.readChunks (g.transport clock).recorded fuel address size)
      (NvmAccessProviderSerial.readLoop (g.port time) dl fuel address size chunkSize) SameData := by
  induction fuel generalizing address size chunkSize with
  | zero => exact .pure (.ok rfl)
  | succ fuel ih =>
    refine Lockstep.ite Iff.rfl (fun _ ↦ .pure (.ok rfl)) fun hsize ↦ ?_
    obtain rfl : chunkSize = 0x100 := hchunk.resolve_left hsize
    have hmin : (if size < 0x100 then size else 0x100) = min size Updi.maxRepeatSize := by
      change _ = min size 0x100
      split_ifs <;> omega
    have hleft : size - min size Updi.maxRepeatSize = 0 ∨
        min size Updi.maxRepeatSize = NvmAccessProviderSerial.readChunkSize := by
      change size - min size 0x100 = 0 ∨ min size 0x100 = 0x100
      omega
    simp only [hmin]
    refine (lockstep_readData hg clock time htimeout address _).seq sameData_error
      fun bytes _ hbytes ↦ ?_
    subst hbytes
    refine (ih _ _ _ hleft).seq sameData_error fun rest _ hrest ↦ ?_
    subst hrest
    exact .pure (.ok rfl)

end Reads

section Writes

variable {τ κ κ' : Type} (g : Target τ) (clock : Option (κ → UInt32 × κ)) (time : κ' → ℚ × κ')
  (dl : UpdiDatalink) {exL : UpdiErr → Prop} {exR : PymcuprogError → Prop}

theorem lockstep_streamBytes (data : List UInt8) :
    Lockstep (InStep dl) (.ofStatus exL exR)
      (UpdiLink.streamBytes (g.transport clock).recorded data)
      (UpdiDatalink.stPtrIncRest (g.port time) data) Same := by
  induction data with
  | nil => exact .pure (.ok trivial)
  | cons b data ih =>
    refine (lockstep_send g clock time [b]).seq same_error fun _ _ _ ↦ ?_
    exact (lockstep_checkAck g clock time _).seq same_error fun _ _ _ ↦ ih

theorem lockstep_stPtrInc (data : List UInt8) :
    Lockstep (InStep dl) (.ofStatus exL exR) (UpdiLink.stPtrInc (g.transport clock).recorded data)
      (UpdiDatalink.stPtrInc (g.port time) data) Same := by
  cases data with
  | nil => exact .fail (same_error _ _)
  | cons b data =>
    refine (lockstep_send g clock time _).seq same_error fun _ _ _ ↦ ?_
    exact (lockstep_checkAck g clock time _).seq same_error fun _ _ _ ↦
      lockstep_streamBytes g clock time dl data

theorem lockstep_writeChunks (fuel address : ℕ) (data : List UInt8) :
    Lockstep (InStep dl) (.ofStatus exL exR)
      (UpdiLink.writeChunks (g.transport clock).recorded fuel address data)
      (UpdiReadWrite.writeChunks (g.port time) dl fuel address data) Same := by
  induction fuel generalizing address data with
  | zero => exact .pure (.ok trivial)
  | succ fuel ih =>
    refine Lockstep.ite Iff.rfl (fun _ ↦ .pure (.ok trivial)) fun hdata ↦ ?_
    have hmin : (if Constants.maxRepeatSize < data.length then Constants.maxRepeatSize else
        data.length) =
        min data.length Updi.maxRepeatSize := by
      change (if 256 < data.length then 256 else data.length) = min data.length 256
      split_ifs <;> omega
    have hpos : 1 ≤ min data.length Updi.maxRepeatSize :=
      Nat.le_min.mpr ⟨Nat.pos_of_ne_zero hdata, by decide⟩
    simp only [hmin]
    refine (lockstep_stPtr g clock time dl address).seq same_error fun _ _ _ ↦ ?_
    refine (lockstep_repeat g clock time dl hpos (Nat.min_le_right _ _)).seq same_error
      fun _ _ _ ↦ ?_
    exact (lockstep_stPtrInc g clock time dl _).seq same_error fun _ _ _ ↦ ih _ _

/-- Of no data pymcuprog makes nothing, where the port refuses it. -/
theorem lockstep_writeData (address : ℕ) {data : List UInt8} (hdata : data ≠ []) :
    Lockstep (InStep dl) (.ofStatus exL exR)
      (UpdiLink.writeData (g.transport clock).recorded address data)
      (UpdiReadWrite.writeData (g.port time) dl address data) Same := by
  match data with
  | [] => exact absurd rfl hdata
  | [b] => exact lockstep_st g clock time dl address b
  | [b₀, b₁] =>
    exact (lockstep_st g clock time dl address b₀).seq same_error fun _ _ _ ↦
      lockstep_st g clock time dl _ b₁
  | b₀ :: b₁ :: b₂ :: rest => exact lockstep_writeChunks g clock time dl _ address _

end Writes

/-- One exchange with the target, on a layer where both stacks have a function for it. -/
inductive Exchange
  | call (op : NvmCall)
  | read (memory offset size : ℕ)
  | readData (address size : ℕ)
  | readDataWords (address words : ℕ)
  | writeData (address : ℕ) (data : List UInt8)
  | writeDataWords (address : ℕ) (data : List UInt8)
  deriving DecidableEq, Repr

namespace Exchange

variable {σ : Type} (d : UpdiDevice)

def run (t : UpdiTransport σ) : Exchange → LinkM σ (List UInt8)
  | call op => do
    op.run d t
    pure []
  | read memory offset size => Updi.UpdiNvm.read t (offset + memory) size
  | readData address size => UpdiLink.readData t address size
  | readDataWords address words => UpdiLink.readDataWords t address words
  | writeData address data => do
    UpdiLink.writeData t address data
    pure []
  | writeDataWords address data => do
    UpdiLink.writeDataWords t address data
    pure []

def reference (port : SerialPort σ) (dl : UpdiDatalink) (turns : ℕ) : Exchange → PyM σ (List UInt8)
  | call op => do
    op.reference d port dl turns
    pure []
  | read memory offset size => NvmAccessProviderSerial.read port dl memory offset size
  | readData address size => UpdiReadWrite.readData port dl address size
  | readDataWords address words => UpdiReadWrite.readDataWords port dl address words
  | writeData address data => do
    UpdiReadWrite.writeData port dl address data
    pure []
  | writeDataWords address data => do
    UpdiReadWrite.writeDataWords port dl address data
    pure []

def InRange : Exchange → Prop
  | call op => op.InRange d
  | writeData _ data => data ≠ []
  | writeDataWords _ data => data.length ≠ 0 ∧ data.length % 2 = 0
  | _ => True

/-- A conversation, which ends at the first exchange that fails, and what it read. -/
def converse (t : UpdiTransport σ) (talk : List Exchange) : LinkM σ (List (List UInt8)) :=
  each (·.run d t) talk

def converseReference (port : SerialPort σ) (dl : UpdiDatalink) (turns : ℕ) (talk : List Exchange) :
    PyM σ (List (List UInt8)) := each (·.reference d port dl turns) talk

end Exchange

/-- A status poll that did not end ready, or a read that fell short. -/
def PollOrReadFailed (e : UpdiErr) : Prop := e = .timeout ∨ e = .nvm ∨ e = .locked

section Growth

variable {τ κ : Type} {t : UpdiTransport (τ × κ)}

theorem grows_writes {α : Type} {m : LinkM ((τ × κ) × List Event) α}
    (h : LinkSends Updi.Ordinary m) : Grows m :=
  h.mono (Updi.Sends.mono fun _ _ ↦ trivial)

theorem grows_readDataWords (address words : ℕ) :
    Grows (UpdiLink.readDataWords t.recorded address words) := by
  have hload : Grows (UpdiLink.ldPtrInc16 t.recorded words) :=
    (Updi.sends_send trivial).bind fun _ ↦ Updi.sends_recvAll _
  refine .ite (fun _ ↦ .fail) fun _ ↦ (grows_reads (Updi.sends_stPtr address)).bind fun _ ↦ ?_
  exact .ite (fun _ ↦ (grows_reads (Updi.sends_repeatCount words)).bind fun _ ↦ hload) fun _ ↦ hload

theorem grows_stPtrInc (data : List UInt8) : Grows (UpdiLink.stPtrInc t.recorded data) := by
  have hstream (data : List UInt8) : Grows (UpdiLink.streamBytes t.recorded data) := by
    induction data with
    | nil => exact .pure
    | cons b data ih =>
      exact (Updi.sends_send trivial).bind fun _ ↦ Updi.sends_recvAck.bind fun _ ↦ ih
  cases data with
  | nil => exact .fail
  | cons b data =>
    exact (Updi.sends_send trivial).bind fun _ ↦ Updi.sends_recvAck.bind fun _ ↦ hstream data

theorem grows_stByte (address : ℕ) (value : UInt8) :
    Grows (UpdiLink.stByte t.recorded address value) :=
  grows_writes (Updi.sends_stByte address value)

theorem grows_writeData (address : ℕ) (data : List UInt8) :
    Grows (UpdiLink.writeData t.recorded address data) := by
  have hchunks (fuel address : ℕ) (data : List UInt8) :
      Grows (UpdiLink.writeChunks t.recorded fuel address data) := by
    induction fuel generalizing address data with
    | zero => exact .pure
    | succ fuel ih =>
      refine .ite (fun _ ↦ .pure) fun _ ↦ (grows_reads (Updi.sends_stPtr address)).bind fun _ ↦ ?_
      exact (grows_reads (Updi.sends_repeatCount _)).bind fun _ ↦ (grows_stPtrInc _).bind
        fun _ ↦ ih _ _
  match data with
  | [] => exact .fail
  | [b] => exact grows_stByte address b
  | [b₀, b₁] => exact (grows_stByte address b₀).bind fun _ ↦ grows_stByte _ b₁
  | b₀ :: b₁ :: b₂ :: rest => exact hchunks _ address _

variable (d : UpdiDevice)

theorem grows_waitNvmReady (timeoutMs : UInt32) :
    Grows (Updi.UpdiNvm.waitNvmReady t.recorded d timeoutMs) :=
  grows_reads (Updi.sends_waitNvmReady d timeoutMs)

theorem grows_finishCommand (timeoutMs : UInt32) (clear : Bool) :
    Grows (Updi.UpdiNvm.finishCommand t.recorded d timeoutMs clear) :=
  grows_writes (Updi.sends_finishCommand d timeoutMs clear)

theorem grows_writeFuse (index value : UInt8) :
    Grows (Updi.UpdiNvm.writeFuse t.recorded d index value) := by
  refine .ite (fun _ ↦ .fail) fun _ ↦ .ite (fun _ ↦ ?_) fun _ ↦ ?_
  · refine (grows_waitNvmReady d 100).bind fun _ ↦ (grows_stByte _ _).bind fun _ ↦ ?_
    refine (grows_waitNvmReady d 100).bind fun _ ↦ (grows_writeData _ [value]).bind fun _ ↦ ?_
    exact (grows_stByte _ _).bind fun _ ↦ grows_finishCommand d 100 true
  · refine (grows_waitNvmReady d 100).bind fun _ ↦ (grows_stByte _ _).bind fun _ ↦ ?_
    refine (grows_stByte _ _).bind fun _ ↦ (grows_stByte _ _).bind fun _ ↦ ?_
    exact (grows_stByte _ _).bind fun _ ↦ grows_waitNvmReady d 100

theorem grows_call (op : NvmCall) : Grows (op.run d t.recorded) := by
  cases op with
  | chipErase => exact grows_writes (Updi.sends_nvmChipErase d)
  | eraseFlashPage address =>
    refine (grows_waitNvmReady d 100).bind fun _ ↦ (grows_writeData address [0xFF]).bind fun _ ↦ ?_
    exact (grows_stByte _ _).bind fun _ ↦ grows_finishCommand d 100 _
  | writeFlashPage address data => exact grows_writes (Updi.sends_writeFlashPage d address data)
  | writeFuse index value => exact grows_writeFuse d index value
  | enterProgmode =>
    exact Updi.sends_enterProgmode (fun _ ↦ trivial) (fun _ _ ↦ trivial) trivial trivial
  | leaveProgmode => exact Updi.sends_leaveProgmode (fun _ ↦ trivial) trivial
  | unlock => exact Updi.sends_unlock (fun _ ↦ trivial) (fun _ _ ↦ trivial) trivial trivial

theorem grows_exchange (e : Exchange) : Grows (e.run d t.recorded) := by
  cases e with
  | call op => exact (grows_call d op).bind fun _ ↦ .pure
  | read memory offset size => exact grows_reads (Updi.sends_readChunks _ _ _)
  | readData address size => exact grows_reads (Updi.sends_readData address size)
  | readDataWords address words => exact grows_readDataWords address words
  | writeData address data => exact (grows_writeData address data).bind fun _ ↦ .pure
  | writeDataWords address data =>
    exact (grows_writes (Updi.sends_writeDataWords address data)).bind fun _ ↦ .pure

end Growth

section Talk

variable {τ κ κ' : Type} {g : Target τ} (hg : g.Streams) (clock : Option (κ → UInt32 × κ))
  (time : κ' → ℚ × κ')
  (dl : UpdiDatalink) {d : UpdiDevice} {turns : ℕ} (hturns : Updi.nvmMaxPollIters ≤ turns)

/-- What excuses a conversation: a status poll that failed, an acknowledge that
did not arrive, a read that fell short, or a read of the system status that got no
answer. -/
abbrev talkExcuse : Excuse (LinkState ((τ × κ) × List Event)) UpdiErr PymcuprogError :=
  progExcuse PollOrReadFailed

theorem NvmCall.PollFailed.ofTalk {op : NvmCall} {e : UpdiErr} (h : op.PollFailed e) :
    PollOrReadFailed e := by
  cases op with
  | enterProgmode => exact .inr (.inr h)
  | leaveProgmode => exact h.elim
  | unlock => exact .inr (.inl h)
  | _ => exact h.imp_right .inl

theorem lockstep_silent {m : LinkM ((τ × κ) × List Event) Unit} {p : PyM (Wire τ κ') Unit}
    (h : Lockstep (InStep dl) (talkExcuse (τ := τ) (κ := κ)) m p Same) :
    Lockstep (InStep dl) talkExcuse (m >>= fun _ ↦ pure []) (p >>= fun _ ↦ pure []) SameData :=
  h.bind (fun _ _ ↦ id) (fun _ _ _ ↦ .error trivial) fun _ _ _ ↦ .pure (.ok rfl)

theorem talk_of_status {α β : Type} {m : LinkM ((τ × κ) × List Event) α} {p : PyM (Wire τ κ') β}
    {Q : Except UpdiErr α → Except PymcuprogError β → Prop}
    (h : Lockstep (InStep dl) (.ofStatus PollOrReadFailed PymcuprogError.Missed) m p Q) :
    Lockstep (InStep dl) talkExcuse m p Q :=
  h.weaken (fun _ ↦ False.elim) (fun _ ↦ id) fun _ ↦ id

include hg hturns

theorem lockstep_exchange {e : Exchange} (he : e.InRange d) :
    Lockstep (InStep dl) talkExcuse (e.run d (g.transport clock).recorded)
      (e.reference d (g.port time) dl turns) SameData := by
  have hshort : PollOrReadFailed .timeout := .inl rfl
  cases e with
  | call op =>
    have hcall := lockstep_call g clock time dl hturns he
    exact lockstep_silent dl (hcall.weaken (fun _ ↦ id) (fun _ ↦ NvmCall.PollFailed.ofTalk) fun _ ↦
      id)
  | read memory offset size =>
    exact talk_of_status dl (lockstep_readChunks hg clock time hshort _ _ _ _ (.inr rfl))
  | readData address size =>
    exact talk_of_status dl (lockstep_readData hg clock time hshort address size)
  | readDataWords address words =>
    exact talk_of_status dl (lockstep_readDataWords hg clock time hshort address words)
  | writeData address data =>
    exact lockstep_silent dl (talk_of_status dl (lockstep_writeData g clock time dl address he))
  | writeDataWords address data =>
    exact lockstep_silent dl
      (talk_of_status dl (lockstep_writeDataWords g clock time dl address he))

theorem lockstep_converse {talk : List Exchange} (htalk : ∀ e ∈ talk, e.InRange d) :
    Lockstep (InStep dl) talkExcuse (Exchange.converse d (g.transport clock).recorded talk)
      (Exchange.converseReference d (g.port time) dl turns talk) (Alike (· = ·) fun _ _ ↦ True) :=
  .each (fun e ↦ keptBy_of_sends (grows_exchange d e))
    fun e he ↦ lockstep_exchange hg clock time dl hturns (htalk e he)

/-- Over a whole conversation the port and pymcuprog send the same bytes to the
same target, read the same data and leave the target in the same state, if every
status poll of both ends ready in time, every acknowledge arrives, no read falls
short and every read of the system status is answered. -/
theorem conversation_in_step (talk : List Exchange) (htalk : ∀ e ∈ talk, e.InRange d)
    (link : UpdiLink) (x : τ) (k : κ) (k' : κ')
    (hport : ∀ e, (Exchange.converse d (g.transport clock).recorded talk ⟨link, (x, k), []⟩).1 =
      .error e →
      ¬PollOrReadFailed e)
    (hreference : ∀ e,
      (Exchange.converseReference d (g.port time) (.ofWidth link.addressBytes) turns talk
      ⟨x, [], [], k'⟩).1 = .error e → ¬e.Missed)
    (hanswered : ¬unanswered <:+:
      (Exchange.converse d (g.transport clock).recorded talk ⟨link, (x, k), []⟩).2.ctx.2) :
    let port := Exchange.converse d (g.transport clock).recorded talk ⟨link, (x, k), []⟩
    let reference :=
      Exchange.converseReference d (g.port time) (.ofWidth link.addressBytes) turns talk
        ⟨x, [], [], k'⟩
    delivered port.2.ctx.2 = reference.2.written ∧ port.1.toOption = reference.1.toOption ∧
      port.2.ctx.1.1 = reference.2.target := by
  have hstart :
      InStep (.ofWidth link.addressBytes) (⟨link, (x, k), []⟩ : LinkState ((τ × κ) × List Event))
      (⟨x, [], [], k'⟩ : Wire τ κ') := ⟨rfl, rfl, rfl, rfl⟩
  have hrun := lockstep_converse hg clock time _ hturns htalk _ _ hstart
  obtain ⟨hend, hdata⟩ := hrun.resolve_left (Excuse.not_holds hanswered hport hreference)
  exact ⟨hend.bytes, hdata.toOption, hend.target⟩

end Talk

/-- A target that has its answers ready in a row, and gives as many bytes of them as
are waited for. -/
def queued : Target (List UInt8) where
  hear _ answers := answers
  answer len answers := (answers.take len, answers.drop len)
  answer_length _ _ := List.length_take_le _ _

theorem queued_streams : queued.Streams where
  nothing _ := rfl
  silence n x x' h := by
    cases x with
    | nil => exact h
    | cons b rest => cases h
  byte n x b x' h := by
    cases x with
    | nil => cases h
    | cons c rest =>
      cases h
      rfl

/-- A session on an AVR EA: the mode is entered, the signature read, a page erased
and two of its words written and read back. -/
def pageTalk : List Exchange :=
  [.call .enterProgmode, .readData 0x1100 3, .call (.eraseFlashPage 0x800000),
    .call (.writeFlashPage 0x800000 [1, 2, 3, 4]), .read 0x800000 0 4, .call .leaveProgmode]

def pageTalkAnswers : List UInt8 :=
  [0x00, 0x10, 0x00, 0x08] ++ [0x40, 0x1E, 0x96, 0x20] ++ [0x00, 0x40, 0x40, 0x40, 0x40, 0x00,
    0x40, 0x40] ++
    [0x02, 0x00, 0x40, 0x40, 0x00, 0x40, 0x40, 0x40, 0x01, 0x00, 0x40, 0x40] ++ [0x40, 1, 2, 3, 4]

abbrev portTalk :=
  Exchange.converse avr64ea28 (queued.transport (none : Option (Unit → UInt32 × Unit))).recorded
  pageTalk ⟨⟨3, 300, true⟩, (pageTalkAnswers, ()), []⟩

abbrev referenceTalk := Exchange.converseReference avr64ea28 (queued.port fun k : Unit ↦ (0, k))
  (.ofWidth (UpdiLink.addressBytes ⟨3, 300, true⟩)) Updi.nvmMaxPollIters pageTalk
    ⟨pageTalkAnswers, [], [], ()⟩

theorem pageTalk_in_step :
    (delivered portTalk.2.ctx.2 = referenceTalk.2.written ∧
      portTalk.1.toOption = referenceTalk.1.toOption ∧
      portTalk.2.ctx.1.1 = referenceTalk.2.target) ∧
      portTalk.1 = .ok [[], [0x1E, 0x96, 0x20], [], [], [1, 2, 3, 4], []] := by
  have hport : portTalk.1 = .ok [[], [0x1E, 0x96, 0x20], [], [], [1, 2, 3, 4], []] := by
    decide +kernel
  have hreference : referenceTalk.1 = .ok [[], [0x1E, 0x96, 0x20], [], [], [1, 2, 3, 4], []] := by
    decide +kernel
  have hanswered : ¬unanswered <:+: portTalk.2.ctx.2 := by decide +kernel
  have hrange : ∀ e ∈ pageTalk, e.InRange avr64ea28 := by
    simp [pageTalk, Exchange.InRange, NvmCall.InRange, avr64ea28]
  have hstep := conversation_in_step queued_streams (none : Option (Unit → UInt32 × Unit))
    (fun k : Unit ↦ (0, k)) (Nat.le_refl _) pageTalk hrange ⟨3, 300, true⟩ pageTalkAnswers () ()
  refine ⟨?_, hport⟩
  with_reducible refine hstep ?_ ?_ hanswered
  · intro e he
    rw [hport] at he
    exact nomatch he
  · intro e he
    rw [hreference] at he
    exact nomatch he

end UpdiProgrammer.Reference
