import UpdiProgrammer.HostTest.NvmRun
import UpdiProgrammer.Ui.Release

namespace UpdiProgrammer.HostTest

open Updi UpdiLink Library.Program
open UpdiTransport (Event)

/-- The instructions of the decoder, a KEY with the key it carries. -/
inductive Instruction
  | ldcs
  | stcs
  | lds
  | sts
  | stPtr
  | stInc
  | ld
  | repeatCount
  | sib
  | key (k : List UInt8)
  deriving DecidableEq, Repr

/-- The instruction that an opcode selects. A KEY counts when it is complete. -/
def opcodeInstruction (op : UInt8) : Option Instruction :=
  match (op >>> 5).toNat with
  | 4 => some .ldcs
  | 6 => some .stcs
  | 0 => some .lds
  | 2 => some .sts
  | 3 =>
    if op &&& 0x0C = ptrAddress then some .stPtr
    else if op &&& 0x0C = ptrInc then some .stInc
    else none
  | 1 => some .ld
  | 5 => some .repeatCount
  | _ => if op &&& keySib ≠ 0 then some .sib else none

/-- Everything but the stores to memory and the keys other than NVMPROG. -/
def Instruction.ReadOnly : Instruction → Prop
  | .sts | .stInc => False
  | .key k => k = keyNvm
  | _ => True

namespace UpdiEmu

/-- The instruction that the decoder recognises at a byte. -/
def decodes (e : UpdiEmu) (b : UInt8) : Option Instruction :=
  match e.state with
  | .opcode => opcodeInstruction b
  | .key => if e.need ≤ (e.acc ++ [b]).length then
    some (.key ((e.acc ++ [b]).take e.need).reverse) else none
  | _ => none

def instructions (P : AckPolicy) : UpdiEmu → List UInt8 → List Instruction
  | _, [] => []
  | e, b :: rest => (e.decodes b).toList ++ instructions P (e.feedByte P b) rest

variable {P : AckPolicy} {e : UpdiEmu}

theorem instructions_append (a b : List UInt8) (e : UpdiEmu) :
    e.instructions P (a ++ b) = e.instructions P a ++ (e.feed P a).instructions P b := by
  induction a generalizing e with
  | nil => rfl
  | cons x a ih => simp only [List.cons_append, instructions, ih, List.append_assoc, feed_cons]

theorem instructions_frame (h : e.state = .idle) (op : UInt8) (rest : List UInt8) :
    e.instructions P (phySync :: op :: rest) = (opcodeInstruction op).toList ++
      (({ e with state := .opcode } : UpdiEmu).feedOpcode op).instructions P rest := by
  have hs : e.feedByte P phySync = { e with state := .opcode } := by
    unfold feedByte
    rw [h]
    rfl
  have hd : e.decodes phySync = none := by
    unfold decodes
    rw [h]
  rw [instructions, instructions, hd, hs]
  rfl

theorem instructions_address (l : List UInt8) (e : UpdiEmu)
    (hs : e.state = .ldsAddr ∨ e.state = .stptrAddr) (hl : e.acc.length + l.length ≤ e.need) :
    e.instructions P l = [] := by
  induction l generalizing e with
  | nil => rfl
  | cons b l ih =>
    have hd : e.decodes b = none := by
      unfold decodes
      rcases hs with h | h <;> rw [h]
    rw [instructions, hd]
    simp only [List.length_cons] at hl
    cases l with
    | nil => rfl
    | cons b' l =>
      have hb : e.feedByte P b = { e with acc := e.acc ++ [b] } := by
        have hlt : ¬e.need ≤ (e.acc ++ [b]).length := by
          simp only [List.length_append, List.length_cons, List.length_nil] at hl ⊢
          omega
        unfold feedByte
        rcases hs with h | h <;> rw [h] <;> exact if_neg hlt
      rw [hb]
      refine ih { e with acc := e.acc ++ [b] } hs ?_
      simp only [List.length_append, List.length_cons, List.length_nil] at hl ⊢
      omega

/-- Bytes that leave the memories alone and make up no store. -/
structure Harmless (P : AckPolicy) (e : UpdiEmu) (data : List UInt8) : Prop where
  store : e.mem.SameStore (e.feed P data).mem
  readOnly : ∀ i ∈ e.instructions P data, i.ReadOnly

theorem Harmless.append {a b : List UInt8} (h : Harmless P e a) (h' : Harmless P (e.feed P a) b) :
    Harmless P e (a ++ b) := by
  refine ⟨?_, fun i hi ↦ ?_⟩
  · rw [feed_append]
    exact h.store.trans h'.store
  · rw [instructions_append] at hi
    rcases List.mem_append.mp hi with hi | hi
    · exact h.readOnly i hi
    · exact h'.readOnly i hi

theorem harmless_nil : Harmless P e [] := ⟨.refl _, List.forall_mem_nil _⟩

theorem instructions_key (l : List UInt8) (e : UpdiEmu) (hs : e.state = .key) (hneed : e.need = 8)
    (hl : e.acc.length + l.length = 8) (hne : l ≠ []) :
    e.instructions P l = [.key (e.acc ++ l).reverse] := by
  induction l generalizing e with
  | nil => exact absurd rfl hne
  | cons b l ih =>
    simp only [List.length_cons] at hl
    cases l with
    | nil =>
      have hlen : (e.acc ++ [b]).length = 8 := by
        simp only [List.length_append, List.length_cons, List.length_nil] at hl ⊢
        omega
      have hd : e.decodes b = some (.key (e.acc ++ [b]).reverse) := by
        unfold decodes
        rw [hs, hneed]
        simp only [hlen, le_refl, if_true, List.take_of_length_le (le_of_eq hlen)]
      rw [instructions, hd]
      rfl
    | cons b' l =>
      have hlt : ¬8 ≤ (e.acc ++ [b]).length := by
        simp only [List.length_append, List.length_cons, List.length_nil] at hl ⊢
        omega
      have hd : e.decodes b = none := by
        unfold decodes
        rw [hs, hneed]
        exact if_neg hlt
      have hb : e.feedByte P b = { e with acc := e.acc ++ [b] } := by
        unfold feedByte
        rw [hs]
        exact if_neg (by rwa [hneed])
      have hrest := ih { e with acc := e.acc ++ [b] } hs hneed
        (by simp only [List.length_append, List.length_cons, List.length_nil] at hl ⊢; omega)
        (List.cons_ne_nil _ _)
      rw [instructions, hd, hb, hrest]
      simp only [Option.toList_none, List.nil_append, List.append_assoc, List.cons_append]

theorem ldLoop_mem (n : ℕ) (e : UpdiEmu) : (ldLoop n e).mem = e.mem := by
  induction n generalizing e with
  | zero => rfl
  | succ n ih => rw [ldLoop, ih, rxPush_eq]

/-- The frames that an operation sends which does not write. -/
inductive Control : List UInt8 → Prop
  | read {data : List UInt8} (h : ReadFrame data) : Control data
  | stcs (a v : UInt8) : Control (stcsFrame a v)

/-- A control frame is one harmless instruction, and the decoder is idle again after it. -/
structure Settles (P : AckPolicy) (data : List UInt8) : Prop where
  harmless : ∀ e : UpdiEmu, e.state = .idle → Harmless P e data
  idle : ∀ e : UpdiEmu, e.state = .idle → (e.feed P data).state = .idle

theorem at_self (h : e.state = .idle) : At e.mem e.rx e.repeatNext e := ⟨rfl, h, rfl, rfl⟩

theorem readOnly_frame (h : e.state = .idle) {op : UInt8} {i : Instruction} {rest : List UInt8}
    (hop : opcodeInstruction op = some i) (hi : i.ReadOnly)
    (hrest : (({ e with state := .opcode } : UpdiEmu).feedOpcode op).instructions P rest = []) :
    ∀ i ∈ e.instructions P (phySync :: op :: rest), i.ReadOnly := by
  rw [instructions_frame h, hop, hrest]
  exact List.forall_mem_singleton.mpr hi

theorem settles_wake : Settles P [updiBreak] := by
  have hbreak : ∀ e : UpdiEmu, e.state = .idle → e.feed P [updiBreak] = e := by
    intro e h
    rw [feed_cons, feed_nil]
    unfold feedByte
    rw [h]
    rfl
  have hnone : ∀ e : UpdiEmu, e.state = .idle → e.instructions P [updiBreak] = [] := by
    intro e h
    unfold instructions decodes
    rw [h]
    rfl
  refine ⟨fun e h ↦ ⟨?_, ?_⟩, fun e h ↦ ?_⟩
  · rw [hbreak e h]
    exact .refl _
  · rw [hnone e h]
    exact List.forall_mem_nil _
  · rwa [hbreak e h]

theorem settles_ldcs (a : UInt8) : Settles P (ldcsFrame a) := by
  refine ⟨fun e h ↦ ⟨?_, ?_⟩, fun e h ↦ ((at_self h).ldcs a).state⟩
  · rw [((at_self h).ldcs a).mem]
    exact .refl _
  · refine readOnly_frame h (i := .ldcs) ?_ trivial rfl
    unfold opcodeInstruction
    rw [group_ldcs]
    rfl

theorem settles_stcs (a v : UInt8) : Settles P (stcsFrame a v) := by
  refine ⟨fun e h ↦ ⟨?_, ?_⟩, fun e h ↦ ((at_self h).stcs a v).state⟩
  · rw [((at_self h).stcs a v).mem]
    exact .applyStcs _ _ _
  · refine readOnly_frame h (i := .stcs) ?_ trivial ?_
    · unfold opcodeInstruction
      rw [group_stcs]
      rfl
    · simp only [feedOpcode, group_stcs]
      rfl

theorem settles_sib (size : ℕ) : Settles P [phySync, updiKey ||| keySib ||| sibSelector size] := by
  refine ⟨fun e h ↦ ⟨?_, ?_⟩, fun e h ↦ ((at_self h).sib size).state⟩
  · rw [((at_self h).sib size).mem]
    exact .refl _
  · refine readOnly_frame h (i := .sib) ?_ trivial rfl
    unfold sibSelector
    split_ifs <;> rfl

theorem settles_lds (a24 : Bool) (address : ℕ) : Settles P
    ([phySync, updiLds ||| (if a24 then address24 else address16) ||| data8] ++
      putAddress a24 address) := by
  refine ⟨fun e h ↦ ⟨?_, ?_⟩, fun e h ↦ ((at_self h).lds a24 address).state⟩
  · rw [((at_self h).lds a24 address).mem]
    exact .refl _
  · refine readOnly_frame h (i := .lds) ?_ trivial ?_
    · cases a24 <;> rfl
    · cases a24 <;> exact instructions_address _ _ (.inl rfl) le_rfl

theorem settles_stPtr (a24 : Bool) (address : ℕ) : Settles P
    ([phySync, updiSt ||| ptrAddress ||| (if a24 then data24 else data16)] ++
      putAddress a24 address) := by
  refine ⟨fun e h ↦ ⟨?_, ?_⟩, fun e h ↦ ((at_self h).stPtr a24 address).state⟩
  · rw [((at_self h).stPtr a24 address).mem]
    exact .refl _
  · refine readOnly_frame h (i := .stPtr) ?_ trivial ?_
    · cases a24 <;> rfl
    · cases a24 <;> exact instructions_address _ _ (.inr rfl) le_rfl

theorem settles_repeatCount (n : UInt8) : Settles P [phySync, updiRepeat ||| repeatByte, n] := by
  have haim {e : UpdiEmu} (h : e.state = .idle) : Aimed e.mem e.rx e.repeatNext e.ptr e :=
    ⟨at_self h, rfl⟩
  refine ⟨fun e h ↦ ⟨?_, ?_⟩, fun e h ↦ ((haim h).send_repeat n).state⟩
  · rw [((haim h).send_repeat n).mem]
    exact .refl _
  · exact readOnly_frame h (i := .repeatCount) rfl trivial rfl

theorem settles_load : Settles P [phySync, updiLd ||| ptrInc ||| data8] := by
  have hfeed : ∀ e : UpdiEmu, e.state = .idle → e.feed P [phySync, updiLd ||| ptrInc ||| data8] =
      { ldLoop ((e.repeatNext + 1) * 1) { e with state := .opcode, repeatNext := 0 } with
        state := .idle } :=
    fun e h ↦ feed_frame h _ _
  refine ⟨fun e h ↦ ⟨?_, ?_⟩, fun e h ↦ ?_⟩
  · rw [hfeed e h]
    exact (ldLoop_mem _ _).symm ▸ .refl _
  · exact readOnly_frame h (i := .ld) rfl trivial rfl
  · rw [hfeed e h]

theorem settles_control {data : List UInt8} (h : Control data) : Settles P data := by
  cases h with
  | stcs a v => exact settles_stcs a v
  | read h =>
    cases h with
    | wake => exact settles_wake
    | ldcs a => exact settles_ldcs a
    | ctrla v => exact settles_stcs _ v
    | ctrlb => exact settles_stcs _ _
    | sib size => exact settles_sib size
    | lds a24 address => exact settles_lds a24 address
    | stPtr a24 address => exact settles_stPtr a24 address
    | repeatCount n => exact settles_repeatCount n
    | load => exact settles_load

end UpdiEmu

open UpdiEmu

def delivered : List Event → List UInt8
  | [] => []
  | .sent data true :: es => data ++ delivered es
  | _ :: es => delivered es

theorem delivered_append (l l' : List Event) :
    delivered (l ++ l') = delivered l ++ delivered l' := by
  induction l with
  | nil => rfl
  | cons e l ih =>
    match e with
    | .sent data true => exact (congrArg (data ++ ·) ih).trans (List.append_assoc _ _ _).symm
    | .sent data false => exact ih
    | .received len data => exact ih
    | .broke => exact ih
    | .clock now => exact ih

/-- Harmless calls, from an idle decoder on, after which it may be waiting
for the rest of a key. -/
def Partial (P : AckPolicy) (l : List Event) : Prop :=
  ∀ e : UpdiEmu, e.state = .idle → Harmless P e (delivered l)

/-- Harmless calls that leave the decoder idle. -/
structure Whole (P : AckPolicy) (l : List Event) : Prop where
  harmless : Partial P l
  idle : ∀ e : UpdiEmu, e.state = .idle → (e.feed P (delivered l)).state = .idle

variable {P : AckPolicy} {l l' : List Event}

theorem whole_nil : Whole P [] := ⟨fun _ _ ↦ harmless_nil, fun _ h ↦ h⟩

theorem Whole.append_torn (h : Whole P l) (h' : Partial P l') : Partial P (l ++ l') := by
  intro e he
  rw [delivered_append]
  exact (h.harmless e he).append (h' _ (h.idle e he))

theorem Whole.append (h : Whole P l) (h' : Whole P l') : Whole P (l ++ l') := by
  refine ⟨h.append_torn h'.harmless, fun e he ↦ ?_⟩
  rw [delivered_append, feed_append]
  exact h'.idle _ (h.idle e he)

theorem whole_sent {data : List UInt8} (h : Settles P data) : Whole P [.sent data true] := by
  have hdata : delivered [.sent data true] = data := List.append_nil data
  refine ⟨fun e he ↦ ?_, fun e he ↦ ?_⟩
  · rw [hdata]
    exact h.harmless e he
  · rw [hdata]
    exact h.idle e he

/-- Control frames are harmless one by one, whichever of them get through. -/
theorem whole_of_control (h : ∀ e ∈ l, Sends Control e) : Whole P l := by
  induction l with
  | nil => exact whole_nil
  | cons e l ih =>
    have hrest := ih fun e he ↦ h e (List.mem_cons_of_mem _ he)
    match e with
    | .sent data true =>
      have hframe : Control data := h (.sent data true) List.mem_cons_self
      exact (whole_sent (settles_control hframe)).append hrest
    | .sent data false => exact ⟨hrest.harmless, hrest.idle⟩
    | .received len data => exact ⟨hrest.harmless, hrest.idle⟩
    | .broke => exact ⟨hrest.harmless, hrest.idle⟩
    | .clock now => exact ⟨hrest.harmless, hrest.idle⟩

theorem feed_keyOpcode {e : UpdiEmu} (h : e.state = .idle) :
    e.feed P [phySync, updiKey ||| keyKey ||| key64] =
      { e with need := 8, acc := [], state := .key } := by
  rw [feed_frame h]
  rfl

theorem harmless_keyOpcode {e : UpdiEmu} (h : e.state = .idle) :
    Harmless P e [phySync, updiKey ||| keyKey ||| key64] := by
  refine ⟨?_, ?_⟩
  · rw [feed_keyOpcode h]
    exact .refl _
  · rw [instructions_frame h]
    exact List.forall_mem_nil _

theorem torn_keyOpcode {data : List UInt8} :
    Partial P [.sent [phySync, updiKey ||| keyKey ||| key64] true, .sent data false] :=
  fun _ h ↦ harmless_keyOpcode h

theorem whole_key : Whole P [.sent [phySync, updiKey ||| keyKey ||| key64] true,
    .sent keyNvm.reverse true] := by
  have hdata : delivered [.sent [phySync, updiKey ||| keyKey ||| key64] true,
      .sent keyNvm.reverse true] = [phySync, updiKey ||| keyKey ||| key64] ++ keyNvm.reverse := rfl
  have hat {e : UpdiEmu} (h : e.state = .idle) := (at_self h).key (P := P)
    (by decide : keyNvm.length = 8)
  refine ⟨fun e h ↦ ?_, fun e h ↦ ?_⟩
  · rw [hdata]
    refine (harmless_keyOpcode h).append ⟨?_, ?_⟩
    · rw [(hat h).mem, feed_keyOpcode h]
      exact .applyKey _ _
    · rw [feed_keyOpcode h, instructions_key _ _ rfl rfl rfl (by decide)]
      exact List.forall_mem_singleton.mpr (List.reverse_reverse keyNvm)
  · rw [hdata, feed_append]
    exact (hat h).state

section Operations

open UpdiNvm UpdiSession Connect Ui Ui.Worker Ui.Release

variable {S E σ α β : Type} {log : S → List Event} {t : UpdiTransport σ} {env : Env}

/-- Every run is harmless, and leaves the decoder idle when it returns normally. -/
def Ends (P : AckPolicy) (log : S → List Event) (m : Prog S E α) : Prop :=
  Emits log m fun l r ↦ Partial P l ∧ ∀ a, r = .ok a → Whole P l

theorem Ends.bind {m : Prog S E α} {k : α → Prog S E β} (hm : Ends P log m)
    (hk : ∀ a, Ends P log (k a)) : Ends P log (m >>= k) := by
  refine Emits.bind hm hk ?_ ?_
  · rintro l e ⟨hl, -⟩
    exact ⟨hl, fun a h ↦ by cases h⟩
  · rintro l l' a r ⟨-, hl⟩ ⟨hl', hok⟩
    exact ⟨(hl a rfl).append_torn hl', fun b hb ↦ (hl a rfl).append (hok b hb)⟩

theorem ends_of_control {m : Prog S E α} (h : Only log (Sends Control) m) : Ends P log m := by
  refine Emits.mono h fun l r hl ↦ ?_
  exact ⟨(whole_of_control hl).harmless, fun _ _ ↦ whole_of_control hl⟩

theorem ends_of_read {m : Prog S E α} (h : Only log (Sends ReadFrame) m) : Ends P log m :=
  ends_of_control (h.mono (Sends.mono fun _ ↦ .read))

theorem ends_sendKey : Ends P linkLog (sendKey t.recorded key64 keyNvm) := by
  refine (emits_sendKey t (by decide : keyNvm.length = 8)).mono fun l r ↦ ?_
  rintro (⟨rfl, -⟩ | ⟨rfl | rfl, rfl⟩)
  · exact ⟨whole_key.harmless, fun _ _ ↦ whole_key⟩
  · exact ⟨fun _ _ ↦ harmless_nil, fun a h ↦ by cases h⟩
  · exact ⟨torn_keyOpcode, fun a h ↦ by cases h⟩

theorem ends_handOver (inMode : Bool) : Ends P linkLog (handOver t.recorded inMode) := by
  have hreset (apply : Bool) : LinkSends Control (nvmReset t.recorded apply) :=
    sends_stcs (.stcs _ _)
  have hkey : Ends P linkLog (applyNvmprogKey t.recorded) := by
    refine (ends_of_control (hreset true)).bind fun _ ↦ ends_sendKey.bind fun _ ↦ ends_of_control ?_
    refine (sends_ldcs (.read (.ldcs _))).bind fun _ ↦ .ite (fun _ ↦ .fail) fun _ ↦ ?_
    exact sends_toggleReset fun v ↦ .stcs _ v
  exact .ite (fun _ ↦ ends_of_control .pure) fun _ ↦ hkey.bind fun _ ↦ ends_of_control .pure

theorem ends_onLink {m : LinkM (σ × List Event) α} (h : Ends P linkLog m) :
    Ends P sessionLog (onLink m) := by
  refine emits_onLink (h.mono fun l r ⟨hl, hok⟩ ↦ ⟨hl, fun a ha ↦ ?_⟩)
  cases r with
  | ok b => exact hok b rfl
  | error e => cases ha

theorem ends_connect : Ends P sessionLog (connect t.recorded) := by
  rw [connect_eq]
  refine Ends.bind ?_ fun asked ↦ ?_
  · exact (ends_of_read sends_probe).bind fun inMode ↦ ends_onLink (ends_handOver inMode)
  · exact ends_of_read ((sends_onLink (sends_awaitUnlock asked)).bind fun _ ↦ sends_identify)

theorem ends_connectSession : Ends P workerLog (connectSession t.recorded false) := by
  have hsession : Ends P workerLog (onSession (connect t.recorded)) :=
    emits_onSession ⟨fun _ _ ↦ harmless_nil, fun a h ↦ by cases h⟩ ends_connect
  refine Emits.bind (Q := fun l r ↦ ∃ r', r = .ok r' ∧ Partial P l ∧ ∀ a, r' = .ok a → Whole P l)
    (K := fun a l r ↦ l = [] ∧ ∀ b, r = .ok b → ∃ c, a = .ok c) ?_ (fun a ↦ ?_) ?_ ?_
  · exact Emits.attempt (hsession.mono fun l r h ↦ ⟨r, rfl, h⟩)
  · split
    · exact Emits.fail ⟨rfl, fun b h ↦ by cases h⟩
    · exact Emits.ofStatus ⟨rfl, fun b h ↦ ⟨b, h⟩⟩
  · rintro l e ⟨r', h, -⟩
    cases h
  · rintro l l' a r ⟨r', ha, hl, hok⟩ ⟨rfl, hr⟩
    cases ha
    rw [List.append_nil]
    refine ⟨hl, fun b hb ↦ ?_⟩
    obtain ⟨c, hc⟩ := hr b hb
    exact hok c hc

theorem ends_doConnect : Ends P workerLog (doConnect t.recorded env false) :=
  (ends_of_read sends_ensureTransport).bind fun _ ↦ ends_connectSession.bind fun _ ↦
    ends_of_read (sends_updateApp _)

/-- Whatever the target answers and whichever frames get lost, a connect, a
verify, a dump and a reading of the fuses send it no store and no key but
NVMPROG, and leave its memories as they were. -/
theorem readOnly_operations (P : AckPolicy) (t : UpdiTransport σ) (env : Env) {op : UpdiOp}
    (hop : op = .connect ∨ op = .verify ∨ op = .dump ∨ op = .readFuses) (app : UpdiApp) (c : σ)
    {e : UpdiEmu} (he : e.state = .idle) :
    (∀ i ∈ e.instructions P (delivered (runOp t.recorded env op ⟨app, c, []⟩).2.ctx.2),
      i.ReadOnly) ∧
      (e.feed P (delivered (runOp t.recorded env op ⟨app, c, []⟩).2.ctx.2)).mem.flash =
        e.mem.flash ∧
      (e.feed P (delivered (runOp t.recorded env op ⟨app, c, []⟩).2.ctx.2)).mem.io = e.mem.io := by
  have herase : allowsErase op = false := by
    rcases hop with rfl | rfl | rfl | rfl <;> rfl
  have hconnect : Ends P workerLog (doConnect t.recorded env (allowsErase op)) := by
    rw [herase]
    exact ends_doConnect
  have hdisconnect :
      Only workerLog (Sends Control) (onSession (UpdiSession.disconnect t.recorded)) := by
    refine sends_onSession (Only.bind (Only.attempt (sends_onLink ?_)) fun _ ↦ sends_update _)
    exact sends_leaveProgmode (fun v ↦ .stcs _ v) (.stcs _ _)
  have hrun : Ends P workerLog (runOp t.recorded env op) := by
    rw [runOp_eq]
    refine Ends.bind (hconnect.bind fun _ ↦ ends_of_read (reads_afterConnect herase)) fun st ↦ ?_
    exact ends_of_control (hdisconnect.bind fun _ ↦ .ofStatus)
  obtain ⟨l, hl, hpartial, -⟩ := hrun ⟨app, c, []⟩
  have hlog : (runOp t.recorded env op ⟨app, c, []⟩).2.ctx.2 = l := hl
  obtain ⟨hstore, hinstructions⟩ := hpartial e he
  rw [hlog]
  refine ⟨hinstructions, ?_, ?_⟩
  · rw [hstore]
  · rw [hstore]

theorem verify_leaves_blank_target :
    (∀ i ∈ UpdiEmu.init.instructions .emulator (delivered (runOp LockEvidence.scripted.recorded
        (plainEnv true) .verify tinyAvrStart).2.ctx.2), i.ReadOnly) ∧
      (UpdiEmu.init.feed .emulator (delivered (runOp LockEvidence.scripted.recorded
        (plainEnv true) .verify tinyAvrStart).2.ctx.2)).mem.flash = UpdiEmu.init.mem.flash ∧
      (UpdiEmu.init.feed .emulator (delivered (runOp LockEvidence.scripted.recorded
        (plainEnv true) .verify tinyAvrStart).2.ctx.2)).mem.io = UpdiEmu.init.mem.io :=
  readOnly_operations .emulator LockEvidence.scripted (plainEnv true) (.inr (.inl rfl))
    tinyAvrStart.app (untilSignature, 0) rfl

end Operations

end UpdiProgrammer.HostTest
