import UpdiProgrammer.HostTest.Frames
import UpdiProgrammer.HostTest.Programming
import UpdiProgrammer.Updi.Identity
import UpdiProgrammer.Updi.Trace

namespace UpdiProgrammer.HostTest

open Updi UpdiLink UpdiNvm Library.Program Prog
open UpdiTransport (Event)
open UpdiEmu (addressSpace wireAddress leValue_putAddress)

inductive NvmOp
  | chipErase
  | eraseFlashPage (address : ℕ)
  | writeFlashPage (address : ℕ) (data : List UInt8)
  | writeFuse (index value : UInt8)
  deriving DecidableEq, Repr

def NvmOp.run {σ : Type} (t : UpdiTransport σ) (d : UpdiDevice) : NvmOp → LinkM σ Unit
  | chipErase => UpdiNvm.chipErase t d
  | eraseFlashPage address => UpdiNvm.eraseFlashPage t d address
  | writeFlashPage address data => UpdiNvm.writeFlashPage t d address data
  | writeFuse index value => UpdiNvm.writeFuse t d index value

/-- What the controller takes part in: it shows its status, or is stored a command. -/
inductive NvmEvent
  | status (value : UInt8)
  | command (value : UInt8)
  deriving DecidableEq, Repr

def commandRegister (d : UpdiDevice) : ℕ := d.nvmctrlBase + d.nvmDesc.regCtrla

def statusRegister (d : UpdiDevice) : ℕ := d.nvmctrlBase + d.nvmDesc.regStatus

/-- A command other than NOCMD. No command is 0xFF, with which the descriptor
marks what a variant lacks and which the dummy write of a page erase stores. -/
def IsNvmCommand (d : UpdiDevice) (v : UInt8) : Prop := v ≠ d.nvmDesc.cmdNocmd ∧ v ≠ 0xFF

/-- Neither a busy nor a write-error bit. -/
def ShowsReady (d : UpdiDevice) (s : UInt8) : Prop :=
  s &&& d.nvmDesc.statusWrerrMask = 0 ∧ s &&& d.nvmDesc.statusBusyMask = 0

instance (d : UpdiDevice) (v : UInt8) : Decidable (IsNvmCommand d v) := instDecidableAnd

instance (d : UpdiDevice) (s : UInt8) : Decidable (ShowsReady d s) := instDecidableAnd

/-- What comes next on the line. -/
inductive Awaits
  | instruction
  | status
  | value (address size : ℕ)
  | block
  deriving DecidableEq, Repr

namespace Awaits

/-- What an instruction makes of the next frame or answer. -/
def after (d : UpdiDevice) : List UInt8 → Awaits
  | _ :: op :: operands =>
    match (op >>> 5).toNat with
    | 0 => if leValue operands = statusRegister d then .status else .instruction
    | 2 => .value (leValue operands) (if op &&& 0x01 ≠ 0 then 2 else 1)
    | 3 => if op &&& 0x0C ≠ ptrAddress ∧ operands = [] then .block else .instruction
    | _ => .instruction
  | _ => .instruction

/-- A frame goes out. Where the value of a store is awaited and the frame has
another size, the store was given up and this is the next instruction. -/
def frame (d : UpdiDevice) (data : List UInt8) (ok : Bool) (w : Awaits) : Awaits × List NvmEvent :=
  let next := if ok then after d data else .instruction
  match w with
  | .value address size =>
    if data.length = size then
      (.instruction, if size = 1 ∧ address = commandRegister d then data.map .command else [])
    else (next, [])
  | .block => (.instruction, [])
  | _ => (next, [])

def step (d : UpdiDevice) (w : Awaits) : Event → Awaits × List NvmEvent
  | .sent data ok => w.frame d data ok
  | .received _ data => if w = .status then (.instruction, data.map .status) else (w, [])
  | .broke => (w, [])
  | .clock _ => (w, [])

/-- The statuses and commands among the calls of the link. -/
def scan (d : UpdiDevice) : Awaits → List Event → Awaits × List NvmEvent
  | w, [] => (w, [])
  | w, e :: es => ((scan d (w.step d e).1 es).1, (w.step d e).2 ++ (scan d (w.step d e).1 es).2)

theorem scan_append (d : UpdiDevice) (w : Awaits) (l l' : List Event) :
    scan d w (l ++ l') =
      ((scan d (scan d w l).1 l').1, (scan d w l).2 ++ (scan d (scan d w l).1 l').2) := by
  induction l generalizing w with
  | nil => rfl
  | cons e l ih => simp only [List.cons_append, scan, ih, List.append_assoc]

/-- Between two instructions. After a store that was given up its value may still be awaited. -/
def Idle (w : Awaits) : Prop :=
  w = .instruction ∨ ∃ address size, w = .value address size ∧ size ≤ 2

theorem Idle.frame {d : UpdiDevice} {w : Awaits} (h : w.Idle) {data : List UInt8}
    (hlen : 3 ≤ data.length) (ok : Bool) :
    w.frame d data ok = (if ok then after d data else .instruction, []) := by
  rcases h with rfl | ⟨address, size, rfl, hsize⟩
  · rfl
  · exact if_neg (by omega)

end Awaits

open Awaits

def nvmEvents (d : UpdiDevice) (l : List Event) : List NvmEvent := (scan d .instruction l).2

/-- Whether the last status that was read, with `a` for the time before, was
read after the last command and showed a ready controller. -/
def current (d : UpdiDevice) : (a : Bool) → List NvmEvent → Bool
  | a, [] => a
  | _, .status s :: l => current d (decide (ShowsReady d s)) l
  | a, .command v :: l => current d (a && !decide (IsNvmCommand d v)) l

/-- Every command finds a current status. -/
def Orderly (d : UpdiDevice) : (a : Bool) → List NvmEvent → Prop
  | _, [] => True
  | _, .status s :: l => Orderly d (decide (ShowsReady d s)) l
  | a, .command v :: l =>
    (IsNvmCommand d v → a = true) ∧ Orderly d (a && !decide (IsNvmCommand d v)) l

section Events

variable {d : UpdiDevice} {a : Bool} {l l' : List NvmEvent}

theorem current_append : current d a (l ++ l') = current d (current d a l) l' := by
  induction l generalizing a with
  | nil => rfl
  | cons e l ih => cases e <;> exact ih

theorem orderly_append : Orderly d a (l ++ l') ↔ Orderly d a l ∧ Orderly d (current d a l) l' := by
  induction l generalizing a with
  | nil => exact iff_of_eq (true_and _).symm
  | cons e l ih =>
    cases e with
    | status s => exact ih
    | command v => exact (and_congr_right fun _ ↦ ih).trans and_assoc.symm

/-- The last status was read after the last command and shows a ready controller. -/
def SeenReady (d : UpdiDevice) (l : List NvmEvent) : Prop :=
  ∃ before s after, l = before ++ .status s :: after ∧ ShowsReady d s ∧
    ∀ e ∈ after, ∃ v, e = .command v ∧ ¬IsNvmCommand d v

theorem seenReady_of_current (h : current d false l = true) : SeenReady d l := by
  induction l using List.reverseRecOn with
  | nil => cases h
  | append_singleton l e ih =>
    rw [current_append] at h
    cases e with
    | status s => exact ⟨l, s, [], rfl, of_decide_eq_true h, List.forall_mem_nil _⟩
    | command v =>
      obtain ⟨hcurrent, hv⟩ := (Bool.and_eq_true_iff ..).mp h
      obtain ⟨before, s, after, rfl, hs, hafter⟩ := ih hcurrent
      refine ⟨before, s, after ++ [.command v], by simp, hs, ?_⟩
      intro e he
      rcases List.mem_append.mp he with he | he
      · exact hafter e he
      · obtain rfl := List.mem_singleton.mp he
        exact ⟨v, rfl, by simpa using hv⟩

theorem Orderly.seenReady (h : Orderly d false l) {before after : List NvmEvent} {v : UInt8}
    (hl : l = before ++ .command v :: after) (hv : IsNvmCommand d v) : SeenReady d before := by
  rw [hl] at h
  exact seenReady_of_current ((orderly_append.mp h).2.1 hv)

end Events

section Link

variable {σ α β : Type} {t : UpdiTransport σ} {d : UpdiDevice} {A : Awaits → Prop}

/-- What a run adds to what is read from the line, from where `A` holds. -/
def Traces (d : UpdiDevice) (A : Awaits → Prop) (m : LinkM (σ × List Event) α)
    (R : Awaits → List NvmEvent → Except UpdiErr α → Prop) : Prop :=
  Emits linkLog m fun l r ↦ ∀ w, A w → R (scan d w l).1 (scan d w l).2 r

theorem Traces.bind {m : LinkM (σ × List Event) α} {k : α → LinkM (σ × List Event) β}
    {B : α → Awaits → Prop} {R : Awaits → List NvmEvent → Except UpdiErr α → Prop}
    {K : α → Awaits → List NvmEvent → Except UpdiErr β → Prop}
    {R' : Awaits → List NvmEvent → Except UpdiErr β → Prop} (hm : Traces d A m R)
    (hk : ∀ x, Traces d (B x) (k x) (K x)) (herr : ∀ w l e, R w l (.error e) → R' w l (.error e))
    (hok : ∀ w l x, R w l (.ok x) → B x w ∧ ∀ w' l' r, K x w' l' r → R' w' (l ++ l') r) :
    Traces d A (m >>= k) R' := by
  refine Emits.bind hm hk (fun l e h w hw ↦ herr _ _ e (h w hw)) fun l l' x r h h' w hw ↦ ?_
  obtain ⟨hB, hall⟩ := hok _ _ x (h w hw)
  rw [scan_append]
  exact hall _ _ r (h' _ hB)

theorem Traces.of_emits {m : LinkM (σ × List Event) α} {Q : List Event → Except UpdiErr α → Prop}
    {R : Awaits → List NvmEvent → Except UpdiErr α → Prop} (h : Emits linkLog m Q)
    (hR : ∀ l r, Q l r → ∀ w, A w → R (scan d w l).1 (scan d w l).2 r) : Traces d A m R :=
  Emits.mono h hR

theorem Traces.mono {m : LinkM (σ × List Event) α}
    {R R' : Awaits → List NvmEvent → Except UpdiErr α → Prop} (h : Traces d A m R)
    (hR : ∀ w l r, R w l r → R' w l r) : Traces d A m R' :=
  Emits.mono h fun _ _ h w hw ↦ hR _ _ _ (h w hw)

theorem Traces.pure {x : α} {R : Awaits → List NvmEvent → Except UpdiErr α → Prop}
    (h : ∀ w, A w → R w [] (.ok x)) :
    Traces d A (pure x : LinkM (σ × List Event) α) R := fun _ ↦ ⟨[], (List.append_nil _).symm, h⟩

theorem Traces.fail {e : UpdiErr} {R : Awaits → List NvmEvent → Except UpdiErr α → Prop}
    (h : ∀ w, A w → R w [] (.error e)) : Traces d A (fail e : LinkM (σ × List Event) α) R :=
  fun _ ↦ ⟨[], (List.append_nil _).symm, h⟩

theorem Traces.attempt {m : LinkM (σ × List Event) α}
    {R : Awaits → List NvmEvent → Except UpdiErr α → Prop}
    {R' : Awaits → List NvmEvent → Except UpdiErr (Except UpdiErr α) → Prop} (h : Traces d A m R)
    (hR : ∀ w l r, R w l r → R' w l (.ok r)) : Traces d A (attempt m) R' :=
  Emits.attempt (Emits.mono h fun _ _ h w hw ↦ hR _ _ _ (h w hw))

/-- A run ends where `B` holds if it succeeds, and between two instructions if not. -/
def EndsIn (B : Awaits → Prop) (w : Awaits) : Except UpdiErr α → Prop
  | .ok _ => B w
  | .error _ => w.Idle

/-- A run that shows nothing of the controller. -/
def Silent (d : UpdiDevice) (A B : Awaits → Prop) (m : LinkM (σ × List Event) α) : Prop :=
  Traces d A m fun w l r ↦ l = [] ∧ EndsIn B w r

theorem Silent.bind {B C : Awaits → Prop} {m : LinkM (σ × List Event) α}
    {k : α → LinkM (σ × List Event) β} (hm : Silent d A B m) (hk : ∀ x, Silent d B C (k x)) :
    Silent d A C (m >>= k) := by
  refine Traces.bind hm hk (fun w l e h ↦ h) ?_
  rintro w l x ⟨rfl, hB⟩
  exact ⟨hB, fun w' l' r h ↦ h⟩

theorem silent_pure (x : α) : Silent d A A (pure x : LinkM (σ × List Event) α) :=
  .pure fun _ hw ↦ ⟨rfl, hw⟩

theorem silent_fail (hA : ∀ w, A w → w.Idle) (e : UpdiErr) {B : Awaits → Prop} :
    Silent d A B (fail e : LinkM (σ × List Event) α) := .fail fun w hw ↦ ⟨rfl, hA w hw⟩

theorem silent_addr24 : Silent d A A (addr24 : LinkM (σ × List Event) Bool) :=
  fun _ ↦ ⟨[], (List.append_nil _).symm, fun _ hw ↦ ⟨rfl, hw⟩⟩

theorem silent_setAckEnabled (b : Bool) :
    Silent d A A (setAckEnabled b : LinkM (σ × List Event) Unit) :=
  fun _ ↦ ⟨[], (List.append_nil _).symm, fun _ hw ↦ ⟨rfl, hw⟩⟩

variable (t)

theorem silent_millis : Silent d A A (millis t.recorded) := by
  refine Traces.of_emits (emits_millis t) fun l r ↦ ?_
  rintro ⟨hl, now, rfl⟩ w hw
  rcases hl with rfl | ⟨n, rfl⟩ <;> exact ⟨rfl, hw⟩

theorem silent_send {data : List UInt8} {B : Awaits → Prop}
    (hok : ∀ w, A w → (w.frame d data true).2 = [] ∧ B (w.frame d data true).1)
    (herr : ∀ w, A w → (w.frame d data false).2 = [] ∧ (w.frame d data false).1.Idle) :
    Silent d A B (UpdiLink.send t.recorded data) := by
  refine Traces.of_emits (emits_send t data) fun l r ↦ ?_
  rintro (⟨rfl, rfl⟩ | ⟨rfl, rfl⟩) w hw
  · exact ⟨(List.append_nil _).trans (hok w hw).1, (hok w hw).2⟩
  · exact ⟨(List.append_nil _).trans (herr w hw).1, (herr w hw).2⟩

theorem silent_instruction {data : List UInt8} (hlen : 3 ≤ data.length) :
    Silent d Idle (· = Awaits.after d data) (UpdiLink.send t.recorded data) := by
  refine silent_send t (fun w hw ↦ ?_) fun w hw ↦ ?_
  · rw [hw.frame hlen]
    exact ⟨rfl, rfl⟩
  · rw [hw.frame hlen]
    exact ⟨rfl, .inl rfl⟩

theorem silent_recvAck (hA : ∀ w, A w → w.Idle) : Silent d A A (recvAck t.recorded) := by
  have hrecv : Silent d A A (recvRaw t.recorded 1) := by
    refine Traces.of_emits (emits_recvRaw t 1) fun l r ↦ ?_
    rintro ⟨buf, -, rfl, rfl⟩ w hw
    have hne : w ≠ .status := by
      rcases hA w hw with rfl | ⟨address, size, rfl, -⟩ <;> exact Awaits.noConfusion
    have hstep : scan d w [.received 1 buf] = (w, []) := by
      rw [scan, Awaits.step, if_neg hne]
      rfl
    rw [hstep]
    exact ⟨rfl, hw⟩
  refine hrecv.bind fun buf ↦ ?_
  by_cases hack : buf = [phyAck]
  · rw [if_pos hack]
    exact silent_pure ()
  · rw [if_neg hack]
    exact silent_fail hA _

/-- What a read of the status register shows, if it gets an answer. -/
def StatusRead (w : Awaits) (l : List NvmEvent) (r : Except UpdiErr UInt8) : Prop :=
  w.Idle ∧ ((∃ s, l = [.status s] ∧ r = .ok s) ∨ l = [] ∧ ∃ e, r = .error e)

theorem traces_recvByte : Traces d (· = .status) (recvByte t.recorded) StatusRead := by
  refine Traces.of_emits (emits_recvByte t) fun l r ↦ ?_
  rintro (⟨s, rfl, rfl⟩ | ⟨rfl, rfl⟩) w rfl
  · exact ⟨.inl rfl, .inl ⟨s, rfl, rfl⟩⟩
  · exact ⟨.inl rfl, .inr ⟨rfl, _, rfl⟩⟩

theorem wireAddress_low {a24 : Bool} {address : ℕ} (h : address < 2 ^ 16) :
    wireAddress a24 address = address := by
  cases a24
  · exact Nat.mod_eq_of_lt h
  · exact Nat.mod_eq_of_lt (by omega : address < 2 ^ 24)

theorem after_lds (hd : d.WellFormed) (a24 : Bool) :
    Awaits.after d ([phySync, updiLds ||| (if a24 then address24 else address16) ||| data8] ++
      putAddress a24 (statusRegister d)) = .status := by
  have hlt : statusRegister d < 2 ^ 16 := by
    unfold statusRegister UpdiDevice.nvmDesc
    rw [hd.nvmctrlBase]
    cases d.nvmVariant <;> decide
  have haddress : leValue (putAddress a24 (statusRegister d)) = statusRegister d :=
    (leValue_putAddress a24 _).trans (wireAddress_low hlt)
  cases a24 <;> exact if_pos haddress

theorem after_sts (a24 d16 : Bool) (address : ℕ) :
    Awaits.after d
      ([phySync, updiSts ||| (if a24 then address24 else address16) |||
        (if d16 then data16 else data8)] ++
      putAddress a24 address) = .value (wireAddress a24 address) (if d16 then 2 else 1) := by
  have haddress := leValue_putAddress a24 address
  cases a24 <;> cases d16 <;> exact congrArg (Awaits.value · _) haddress

theorem addressed_length (op : UInt8) (a24 : Bool) (address : ℕ) :
    3 ≤ ([phySync, op] ++ putAddress a24 address).length := by
  cases a24 <;> simp [putAddress]

theorem traces_ldByte_status (hd : d.WellFormed) :
    Traces d Idle (ldByte t.recorded (statusRegister d)) StatusRead := by
  refine Traces.bind silent_addr24 (B := fun _ ↦ Idle) (K := fun _ ↦ StatusRead)
    (fun a24 ↦ ?_) ?_ ?_
  · refine Traces.bind (silent_instruction t (addressed_length _ a24 _))
      (B := fun _ ↦ (· = .status)) (K := fun _ ↦ StatusRead) (fun _ ↦ traces_recvByte t) ?_ ?_
    · rintro w l e ⟨rfl, hw⟩
      exact ⟨hw, .inr ⟨rfl, e, rfl⟩⟩
    · rintro w l x ⟨rfl, hw⟩
      exact ⟨hw.trans (after_lds hd a24), fun _ _ _ h ↦ h⟩
  · rintro w l e ⟨rfl, hw⟩
    exact ⟨hw, .inr ⟨rfl, e, rfl⟩⟩
  · rintro w l x ⟨rfl, hw⟩
    exact ⟨hw, fun _ _ _ h ↦ h⟩

/-- What a store of `values` to `address` shows of the controller. -/
def stored (d : UpdiDevice) (address : ℕ) (values : List UInt8) : List NvmEvent :=
  if values.length = 1 ∧ address = commandRegister d then values.map .command else []

/-- A store ends between two instructions, and shows what it stores unless it is given up. -/
def Stored (d : UpdiDevice) (address : ℕ) (values : List UInt8) (w : Awaits) (l : List NvmEvent)
    (r : Except UpdiErr Unit) : Prop :=
  w.Idle ∧ (l = [] ∧ (∃ e, r = .error e) ∨ l = stored d address values)

theorem traces_stDataPhase {address : ℕ} {values : List UInt8} (hlen : values.length ≤ 2) :
    Traces d (· = .value address values.length) (stDataPhase t.recorded values)
      (Stored d address values) := by
  have hidle (w : Awaits) (hw : w = .value address values.length) : w.Idle := .inr ⟨_, _, hw, hlen⟩
  have hsend :
      Traces d (· = .value address values.length) (UpdiLink.send t.recorded values) fun w l _ ↦
      w = .instruction ∧ l = stored d address values := by
    have hframe (ok : Bool) : (Awaits.value address values.length).frame d values ok =
        (.instruction, stored d address values) := if_pos rfl
    refine Traces.of_emits (emits_send t values) fun l r ↦ ?_
    rintro (⟨rfl, -⟩ | ⟨rfl, -⟩) w rfl
    all_goals
      rw [scan, Awaits.step, hframe, scan, List.append_nil]
      exact ⟨rfl, rfl⟩
  have hack : Silent d (· = .instruction) (· = .instruction) (recvAck t.recorded) :=
    silent_recvAck t fun w hw ↦ .inl hw
  have hvalue : Traces d (· = .value address values.length) (do
      UpdiLink.send t.recorded values
      recvAck t.recorded) (Stored d address values) := by
    refine Traces.bind hsend (B := fun _ ↦ (· = .instruction)) (fun _ ↦ hack) ?_ ?_
    · rintro w l e ⟨rfl, rfl⟩
      exact ⟨.inl rfl, .inr rfl⟩
    · rintro w l x ⟨rfl, rfl⟩
      refine ⟨rfl, fun w' l' r ⟨hl, hw⟩ ↦ ⟨?_, .inr (by rw [hl, List.append_nil])⟩⟩
      cases r with
      | ok x => exact .inl hw
      | error e => exact hw
  refine Traces.bind (silent_recvAck t hidle) (B := fun _ ↦ (· = .value address values.length))
    (K := fun _ ↦ Stored d address values) (fun _ ↦ hvalue) ?_ ?_
  · rintro w l e ⟨rfl, hw⟩
    exact ⟨hw, .inl ⟨rfl, e, rfl⟩⟩
  · rintro w l x ⟨rfl, hw⟩
    exact ⟨hw, fun _ _ _ h ↦ h⟩

theorem traces_store (address : ℕ) (d16 : Bool) {values : List UInt8}
    (hlen : values.length = if d16 then 2 else 1) :
    Traces d Idle (do
      let a24 ← addr24
      UpdiLink.send t.recorded ([phySync, updiSts ||| (if a24 then address24 else address16) |||
        (if d16 then data16 else data8)] ++ putAddress a24 address)
      stDataPhase t.recorded values) fun w l r ↦
        ∃ a24, Stored d (wireAddress a24 address) values w l r := by
  refine Traces.bind silent_addr24 (B := fun _ ↦ Idle)
    (K := fun a24 ↦ Stored d (wireAddress a24 address) values) (fun a24 ↦ ?_) ?_ ?_
  · refine Traces.bind (silent_instruction t (addressed_length _ a24 address))
      (B := fun _ ↦ (· = .value (wireAddress a24 address) values.length))
      (K := fun _ ↦ Stored d (wireAddress a24 address) values)
        (fun _ ↦ traces_stDataPhase t ?_) ?_ ?_
    · cases d16 <;> simp [hlen]
    · rintro w l e ⟨rfl, hw⟩
      exact ⟨hw, .inl ⟨rfl, e, rfl⟩⟩
    · rintro w l x ⟨rfl, hw⟩
      exact ⟨hw.trans (by rw [after_sts, hlen]), fun _ _ _ h ↦ h⟩
  · rintro w l e ⟨rfl, hw⟩
    exact ⟨false, hw, .inl ⟨rfl, e, rfl⟩⟩
  · rintro w l x ⟨rfl, hw⟩
    exact ⟨hw, fun _ _ _ h ↦ ⟨x, h⟩⟩

theorem traces_stByte (address : ℕ) (value : UInt8) :
    Traces d Idle (stByte t.recorded address value) fun w l r ↦
      ∃ a24, Stored d (wireAddress a24 address) [value] w l r :=
  traces_store t address false rfl

theorem silent_st16 (address : ℕ) (value : UInt16) :
    Silent d Idle Idle (st16 t.recorded address value) := by
  have hstore : Traces d Idle (st16 t.recorded address value) fun w l r ↦ ∃ a24,
      Stored d (wireAddress a24 address) [value.toUInt8, (value >>> 8).toUInt8] w l r :=
        traces_store t address true rfl
  refine hstore.mono fun w l r ⟨a24, hidle, hl⟩ ↦ ⟨?_, ?_⟩
  · rcases hl with ⟨rfl, -⟩ | rfl <;> rfl
  · cases r <;> exact hidle

theorem silent_plain {data : List UInt8} (hlen : 3 ≤ data.length)
    (hafter : Awaits.after d data = .instruction) :
    Silent d Idle (· = .instruction) (UpdiLink.send t.recorded data) := by
  have h := silent_instruction (d := d) t hlen
  rwa [hafter] at h

theorem Silent.weaken {B : Awaits → Prop} {m : LinkM (σ × List Event) α} (h : Silent d Idle B m)
    (hA : ∀ w, A w → w.Idle) : Silent d A B m := fun s ↦ by
  obtain ⟨l, hl, hr⟩ := h s
  exact ⟨l, hl, fun w hw ↦ hr w (hA w hw)⟩

theorem idle_instruction (w : Awaits) (h : w = .instruction) : w.Idle := .inl h

theorem silent_stPtr (address : ℕ) :
    Silent d Idle (· = .instruction) (stPtr t.recorded address) := by
  refine silent_addr24.bind fun a24 ↦
    (silent_plain t (addressed_length _ a24 address) ?_).bind fun _ ↦
    silent_recvAck t idle_instruction
  cases a24 <;> rfl

theorem silent_repeatCount (count : ℕ) :
    Silent d Idle (· = .instruction) (repeatCount t.recorded count) := by
  unfold repeatCount
  split_ifs
  · exact silent_fail (fun _ h ↦ h) _
  · exact silent_plain t (Nat.le_refl 3) rfl

theorem silent_stPtrInc16Block (data : List UInt8) :
    Silent d Idle (· = .instruction) (stPtrInc16Block t.recorded data) := by
  have hstcs (v : UInt8) : Silent d Idle (· = .instruction) (stcs t.recorded csCtrla v) :=
    silent_plain t (Nat.le_refl [phySync, updiStcs ||| (csCtrla &&& 0x0F), v].length) rfl
  have hdisable : Silent d Idle (· = .instruction) (disableAck t.recorded) :=
    (hstcs _).bind fun _ ↦ silent_setAckEnabled false
  have henable : Silent d (· = .instruction) (· = .instruction) (enableAck t.recorded) :=
    ((hstcs _).weaken idle_instruction).bind fun _ ↦ silent_setAckEnabled true
  have hopcode : Silent d (· = .instruction) (· = .block)
      (UpdiLink.send t.recorded [phySync, updiSt ||| ptrInc ||| data16]) := by
    refine silent_send t ?_ ?_ <;> rintro w rfl
    · exact ⟨rfl, rfl⟩
    · exact ⟨rfl, .inl rfl⟩
  have hblock : Silent d (· = .block) (· = .instruction) (UpdiLink.send t.recorded data) := by
    refine silent_send t ?_ ?_ <;> rintro w rfl
    · exact ⟨rfl, rfl⟩
    · exact ⟨rfl, .inl rfl⟩
  exact hdisable.bind fun _ ↦ hopcode.bind fun _ ↦ hblock.bind fun _ ↦ henable

theorem Silent.idle {m : LinkM (σ × List Event) α} (h : Silent d A (· = .instruction) m) :
    Silent d A Idle m :=
  Traces.mono h fun w l r ⟨hl, hw⟩ ↦ ⟨hl, by
    cases r with
    | ok x => exact .inl hw
    | error e => exact hw⟩

theorem silent_writeDataWords (address : ℕ) (data : List UInt8) :
    Silent d Idle Idle (writeDataWords t.recorded address data) := by
  unfold writeDataWords
  by_cases hlen : data.length = 0 ∨ data.length % 2 = 1
  · rw [if_pos hlen]
    exact silent_fail (fun _ h ↦ h) _
  rw [if_neg hlen]
  split
  · exact silent_st16 t address _
  · split_ifs
    · exact silent_fail (fun _ h ↦ h) _
    · refine (silent_stPtr t address).bind fun _ ↦ ?_
      refine ((silent_repeatCount t _).weaken idle_instruction).bind fun _ ↦ ?_
      exact ((silent_stPtrInc16Block t data).weaken idle_instruction).idle

end Link

section Operations

variable {σ α β : Type} (t : UpdiTransport σ) {d : UpdiDevice} {A B C : Bool → Prop}

/-- Events that are orderly where `A` holds of what was seen before, and after
which `B` holds if they are those of a success. -/
def Kept (d : UpdiDevice) (A B : Bool → Prop) (w : Awaits) (l : List NvmEvent)
    (r : Except UpdiErr α) : Prop :=
  w.Idle ∧ ∀ a, A a → Orderly d a l ∧ ((∃ x, r = .ok x) → B (current d a l))

/-- A part of an operation with such events. -/
def Waits (d : UpdiDevice) (A B : Bool → Prop) (m : LinkM (σ × List Event) α) : Prop :=
  Traces d Idle m (Kept d A B)

def Always (_ : Bool) : Prop := True

def Armed (a : Bool) : Prop := a = true

theorem Waits.bind {m : LinkM (σ × List Event) α} {k : α → LinkM (σ × List Event) β}
    (hm : Waits d A B m) (hk : ∀ x, Waits d B C (k x)) : Waits d A C (m >>= k) := by
  refine Traces.bind hm hk ?_ ?_
  · rintro w l e ⟨hw, h⟩
    exact ⟨hw, fun a ha ↦ ⟨(h a ha).1, fun ⟨x, hx⟩ ↦ (by cases hx)⟩⟩
  · rintro w l x ⟨hw, h⟩
    refine ⟨hw, fun w' l' r ⟨hw', h'⟩ ↦ ⟨hw', fun a ha ↦ ?_⟩⟩
    obtain ⟨horder, hcurrent⟩ := h a ha
    obtain ⟨horder', hcurrent'⟩ := h' _ (hcurrent ⟨x, rfl⟩)
    rw [current_append]
    exact ⟨orderly_append.mpr ⟨horder, horder'⟩, hcurrent'⟩

theorem Waits.weaken {A' : Bool → Prop} {m : LinkM (σ × List Event) α} (h : Waits d A B m)
    (hA : ∀ a, A' a → A a) :
    Waits d A' B m := Traces.mono h fun _ _ _ ⟨hw, hall⟩ ↦ ⟨hw, fun a ha ↦ hall a (hA a ha)⟩

theorem Waits.attempt_bind {m : LinkM (σ × List Event) α}
    {k : Except UpdiErr α → LinkM (σ × List Event) β} (hm : Waits d A B m)
    (hok : ∀ x, Waits d B C (k (.ok x))) (herr : ∀ e, Waits d Always C (k (.error e))) :
    Waits d A C (attempt m >>= k) := by
  have hattempt : Traces d Idle (attempt m) fun w l r ↦ ∃ r', r = .ok r' ∧ Kept d A B w l r' :=
    Traces.attempt hm fun w l r h ↦ ⟨r, rfl, h⟩
  have hk (r : Except UpdiErr α) : Waits d (fun a ↦ (∃ x, r = .ok x) → B a) C (k r) := by
    cases r with
    | ok x => exact (hok x).weaken fun a h ↦ h ⟨x, rfl⟩
    | error e => exact (herr e).weaken fun _ _ ↦ trivial
  refine Traces.bind hattempt (B := fun _ ↦ Idle) hk ?_ ?_
  · rintro w l e ⟨r', hr, -⟩
    cases hr
  · rintro w l r ⟨r', hr, hw, h⟩
    cases hr
    refine ⟨hw, fun w' l' r'' ⟨hw', h'⟩ ↦ ⟨hw', fun a ha ↦ ?_⟩⟩
    obtain ⟨horder, hcurrent⟩ := h a ha
    obtain ⟨horder', hcurrent'⟩ := h' _ hcurrent
    rw [current_append]
    exact ⟨orderly_append.mpr ⟨horder, horder'⟩, hcurrent'⟩

theorem Waits.fail (e : UpdiErr) : Waits d A B (fail e : LinkM (σ × List Event) α) :=
  Traces.fail fun w hw ↦ ⟨hw, fun a _ ↦ ⟨trivial, fun ⟨x, hx⟩ ↦ (by cases hx)⟩⟩

theorem Waits.ite {c : Prop} [Decidable c] {m m' : LinkM (σ × List Event) α} (h : c → Waits d A B m)
    (h' : ¬c → Waits d A B m') : Waits d A B (if c then m else m') := by
  split_ifs with hc
  · exact h hc
  · exact h' hc

theorem Silent.keeps {m : LinkM (σ × List Event) α} (h : Silent d Idle Idle m) : Waits d A A m := by
  refine Traces.mono h fun w l r ⟨hl, hw⟩ ↦ ⟨?_, fun a ha ↦ ?_⟩
  · cases r <;> exact hw
  · rw [hl]
    exact ⟨trivial, fun _ ↦ ha⟩

theorem waits_waitNvmReadyLoop (hd : d.WellFormed) (timeoutMs start : UInt32) (iters : ℕ) :
    Waits d Always Armed (waitNvmReadyLoop t.recorded d timeoutMs start iters) := by
  induction iters with
  | zero => exact .fail _
  | succ iters ih =>
    have hrest (s : UInt8) : Waits d (· = decide (ShowsReady d s)) Armed (
        if s &&& d.nvmDesc.statusWrerrMask ≠ 0 then fail .nvm
        else if s &&& d.nvmDesc.statusBusyMask = 0 then pure ()
        else do
          let now ← millis t.recorded
          if timeoutMs ≤ now - start then fail .timeout
          else waitNvmReadyLoop t.recorded d timeoutMs start iters) := by
      refine .ite (fun _ ↦ .fail _) fun herr ↦ .ite (fun hbusy ↦ ?_) fun _ ↦ ?_
      · refine Traces.pure fun w hw ↦ ⟨hw, fun a ha ↦ ⟨trivial, fun _ ↦ ?_⟩⟩
        exact ha.trans (decide_eq_true ⟨not_not.mp herr, hbusy⟩)
      · refine Waits.weaken (A := Always) ?_ fun _ _ ↦ trivial
        exact (silent_millis t).keeps.bind fun now ↦ .ite (fun _ ↦ .fail _) fun _ ↦ ih
    refine Traces.bind (traces_ldByte_status t hd) (B := fun _ ↦ Idle) hrest ?_ ?_
    · rintro w l e ⟨hw, ⟨s, -, hr⟩ | ⟨rfl, -⟩⟩
      · cases hr
      · exact ⟨hw, fun a _ ↦ ⟨trivial, fun ⟨x, hx⟩ ↦ (by cases hx)⟩⟩
    · rintro w l s ⟨hw, ⟨s', rfl, hr⟩ | ⟨-, e, hr⟩⟩
      · cases hr
        exact ⟨hw, fun w' l' r ⟨hw', h⟩ ↦ ⟨hw', fun a _ ↦ h _ rfl⟩⟩
      · cases hr

theorem waits_waitNvmReady (hd : d.WellFormed) (timeoutMs : UInt32) :
    Waits d Always Armed (waitNvmReady t.recorded d timeoutMs) :=
  (silent_millis t).keeps.bind fun start ↦
    waits_waitNvmReadyLoop t hd timeoutMs start nvmMaxPollIters

theorem waits_executeNvmCommand (command : UInt8) :
    Waits d Armed Always (executeNvmCommand t.recorded d command) := by
  refine Traces.mono (traces_stByte t (commandRegister d) command) fun w l r ⟨a24, hw, hl⟩ ↦
    ⟨hw, fun a ha ↦ ⟨?_, fun _ ↦ trivial⟩⟩
  rcases hl with ⟨rfl, -⟩ | rfl
  · trivial
  · unfold stored
    split_ifs
    · exact ⟨fun _ ↦ ha, trivial⟩
    · trivial

/-- A store of what is no command leaves everything as it was seen, whether or not it succeeds. -/
theorem kept_stByte {address : ℕ} {value : UInt8}
    (hv : ¬IsNvmCommand d value ∨ ∀ a24, wireAddress a24 address ≠ commandRegister d) :
    Traces d Idle (stByte t.recorded address value) fun w l _ ↦
      w.Idle ∧ ∀ a, A a → Orderly d a l ∧ A (current d a l) := by
  refine Traces.mono (traces_stByte t address value) fun w l r ⟨a24, hw, hl⟩ ↦ ⟨hw, fun a ha ↦ ?_⟩
  rcases hl with ⟨rfl, -⟩ | rfl
  · exact ⟨trivial, ha⟩
  · unfold stored
    split_ifs with haddress
    · have hv' : ¬IsNvmCommand d value := hv.resolve_right fun h ↦ h a24 haddress.2
      refine ⟨⟨fun h ↦ absurd h hv', trivial⟩, ?_⟩
      change A (a && !decide (IsNvmCommand d value))
      rwa [decide_eq_false hv', Bool.not_false, Bool.and_true]
    · exact ⟨trivial, ha⟩

theorem waits_stByte {address : ℕ} {value : UInt8}
    (hv : ¬IsNvmCommand d value ∨ ∀ a24, wireAddress a24 address ≠ commandRegister d) :
    Waits d A A (stByte t.recorded address value) :=
  Traces.mono (kept_stByte t hv) fun _ _ _ ⟨hw, h⟩ ↦
    ⟨hw, fun a ha ↦ ⟨(h a ha).1, fun _ ↦ (h a ha).2⟩⟩

theorem waits_attempt_stByte {address : ℕ} {value : UInt8} (hv : ¬IsNvmCommand d value) :
    Waits d A A (attempt (stByte t.recorded address value)) :=
  Traces.attempt (kept_stByte t (.inl hv)) fun _ _ _ ⟨hw, h⟩ ↦
    ⟨hw, fun a ha ↦ ⟨(h a ha).1, fun _ ↦ (h a ha).2⟩⟩

theorem waits_pure (x : α) : Waits d A A (pure x : LinkM (σ × List Event) α) :=
  (silent_pure x).keeps

theorem waits_finishCommand (hd : d.WellFormed) (timeoutMs : UInt32) (clear : Bool) :
    Waits d Always Armed (finishCommand t.recorded d timeoutMs clear) := by
  have hnocmd {A : Bool → Prop} :
      Waits d A A (attempt (executeNvmCommand t.recorded d d.nvmDesc.cmdNocmd)) :=
    waits_attempt_stByte t fun h ↦ h.1 rfl
  have hclear {A : Bool → Prop} (r : Except UpdiErr Unit)
      (hr : Waits d A Armed (ofStatus r : LinkM (σ × List Event) Unit)) :
      Waits d A Armed (if clear then do
          let _ ← attempt (executeNvmCommand t.recorded d d.nvmDesc.cmdNocmd)
          ofStatus r
        else ofStatus r) := .ite (fun _ ↦ hnocmd.bind fun _ ↦ hr) fun _ ↦ hr
  unfold finishCommand
  refine (waits_waitNvmReady t hd timeoutMs).attempt_bind (fun x ↦ ?_) fun e ↦ ?_
  · have h := hclear (.ok x) (waits_pure x)
    cases clear <;> exact h
  · have h := hclear (A := Always) (.error e) (.fail e)
    cases clear <;> exact h

theorem waits_chipErase (hd : d.WellFormed) :
    Waits d Always Armed (UpdiNvm.chipErase t.recorded d) :=
  (waits_waitNvmReady t hd 100).bind fun _ ↦ (waits_executeNvmCommand t _).bind fun _ ↦
    waits_finishCommand t hd 500 _

theorem waits_eraseFlashPage (hd : d.WellFormed) (address : ℕ) :
    Waits d Always Armed (UpdiNvm.eraseFlashPage t.recorded d address) := by
  have hdummy : Waits d Armed Armed (writeData t.recorded address [0xFF]) :=
    waits_stByte t (.inl fun h ↦ h.2 rfl)
  exact (waits_waitNvmReady t hd 100).bind fun _ ↦ hdummy.bind fun _ ↦
    (waits_executeNvmCommand t _).bind fun _ ↦
    waits_finishCommand t hd 100 _

theorem waits_writeFlashPage (hd : d.WellFormed) (address : ℕ) (data : List UInt8) :
    Waits d Always Armed (UpdiNvm.writeFlashPage t.recorded d address data) := by
  refine .ite (fun _ ↦ .fail _) fun _ ↦ .ite (fun _ ↦ .fail _) fun _ ↦ ?_
  refine (waits_waitNvmReady t hd 100).bind fun _ ↦ (waits_executeNvmCommand t _).bind fun _ ↦ ?_
  refine (waits_waitNvmReady t hd 100).bind fun _ ↦
    (silent_writeDataWords t address data).keeps.bind fun _ ↦ ?_
  exact (waits_executeNvmCommand t _).bind fun _ ↦ waits_finishCommand t hd 100 _

theorem ne_commandRegister {address : ℕ} (haddress : address < 2 ^ 16)
    (hne : address ≠ commandRegister d) (a24 : Bool) :
    wireAddress a24 address ≠ commandRegister d := by
  rwa [wireAddress_low haddress]

theorem fuses_apart (hd : d ∈ deviceTable) :
    commandRegister d < d.fusesAddress ∧ d.fusesAddress + d.fusesSize ≤ 2 ^ 16 := by
  have hall : ∀ d ∈ deviceTable, commandRegister d < d.fusesAddress ∧
      d.fusesAddress + d.fusesSize ≤ 2 ^ 16 := by decide
  exact hall d hd

theorem waits_writeFuse (hd : d ∈ deviceTable) (index value : UInt8) :
    Waits d Always Armed (UpdiNvm.writeFuse t.recorded d index value) := by
  have hform := UpdiDevice.wellFormed_of_mem hd
  obtain ⟨habove, hbelow⟩ := fuses_apart hd
  refine .ite (fun _ ↦ .fail _) fun hindex ↦ .ite (fun _ ↦ ?_) fun _ ↦ ?_
  · have hfuse :
        Waits d Armed Armed (writeData t.recorded (d.fusesAddress + index.toNat) [value]) :=
      waits_stByte t (.inr (ne_commandRegister (by omega) (by omega)))
    refine (waits_waitNvmReady t hform 100).bind fun _ ↦
      (waits_executeNvmCommand t _).bind fun _ ↦ ?_
    refine (waits_waitNvmReady t hform 100).bind fun _ ↦ hfuse.bind fun _ ↦ ?_
    exact (waits_executeNvmCommand t _).bind fun _ ↦ waits_finishCommand t hform 100 true
  · have hregister (reg : ℕ) (v : UInt8) (hreg : 0 < reg ∧ reg < 0x100) :
        Waits d Armed Armed (stByte t.recorded (d.nvmctrlBase + reg) v) := by
      have hctrla : d.nvmDesc.regCtrla = 0 := by
        unfold UpdiDevice.nvmDesc
        cases d.nvmVariant <;> rfl
      refine waits_stByte t (.inr (ne_commandRegister ?_ ?_))
      · rw [hform.nvmctrlBase]
        omega
      · unfold commandRegister
        omega
    have hregs : (0 < d.nvmDesc.regAddr ∧ d.nvmDesc.regAddr < 0xFF) ∧ 0 < d.nvmDesc.regData ∧
        d.nvmDesc.regData < 0x100 := by
      unfold UpdiDevice.nvmDesc
      cases d.nvmVariant <;> decide
    refine (waits_waitNvmReady t hform 100).bind fun _ ↦ (hregister _ _ (by omega)).bind fun _ ↦ ?_
    refine Waits.bind (hregister (d.nvmDesc.regAddr + 1) _ (by omega)) fun _ ↦ ?_
    refine (hregister _ _ hregs.2).bind fun _ ↦ (waits_executeNvmCommand t _).bind fun _ ↦ ?_
    exact waits_waitNvmReady t hform 100

theorem waits_run (hd : d ∈ deviceTable) (op : NvmOp) :
    Waits d Always Armed (op.run t.recorded d) := by
  have hform := UpdiDevice.wellFormed_of_mem hd
  cases op with
  | chipErase => exact waits_chipErase t hform
  | eraseFlashPage address => exact waits_eraseFlashPage t hform address
  | writeFlashPage address data => exact waits_writeFlashPage t hform address data
  | writeFuse index value => exact waits_writeFuse t hd index value

end Operations

section Runs

variable {σ : Type} {t : UpdiTransport σ} {d : UpdiDevice}

def runOps (t : UpdiTransport σ) (d : UpdiDevice) :
    List NvmOp → LinkState (σ × List Event) → LinkState (σ × List Event) :=
  after (NvmOp.run t.recorded d)

/-- What holds of the calls of the link between two operations. -/
structure Waited (d : UpdiDevice) (s : LinkState (σ × List Event)) : Prop where
  idle : (scan d .instruction (linkLog s)).1.Idle
  orderly : Orderly d false (nvmEvents d (linkLog s))

/-- What one operation preserves, and what it has seen when it succeeds. -/
theorem run_waited (hd : d ∈ deviceTable) (op : NvmOp) {s : LinkState (σ × List Event)}
    (hs : Waited d s) :
    Waited d (op.run t.recorded d s).2 ∧ ((op.run t.recorded d s).1 = .ok () → ∃ l,
      nvmEvents d (linkLog (op.run t.recorded d s).2) = nvmEvents d (linkLog s) ++ l ∧
        SeenReady d l) := by
  obtain ⟨l, hl, hkept⟩ := waits_run t hd op s
  obtain ⟨hidle, hall⟩ := hkept _ hs.idle
  have hscan := scan_append d .instruction (linkLog s) l
  rw [← hl] at hscan
  have hevents : nvmEvents d (linkLog (op.run t.recorded d s).2) =
      nvmEvents d (linkLog s) ++ (scan d (scan d .instruction (linkLog s)).1 l).2 :=
        congrArg Prod.snd hscan
  refine ⟨⟨?_, ?_⟩, fun hok ↦ ⟨_, hevents, ?_⟩⟩
  · rw [hscan]
    exact hidle
  · rw [hevents]
    exact orderly_append.mpr ⟨hs.orderly, (hall _ trivial).1⟩
  · exact seenReady_of_current ((hall false trivial).2 ⟨(), hok⟩)

/-- Every command goes to a controller that was last seen ready, after the
command before it, and every success has seen it ready after its last command. -/
theorem commands_wait (t : UpdiTransport σ) (hd : d ∈ deviceTable) (link : UpdiLink) (c : σ)
    (ops : List NvmOp) :
    (∀ before v after, nvmEvents d (runOps t d ops ⟨link, c, []⟩).ctx.2 = before ++
      .command v :: after →
      IsNvmCommand d v → SeenReady d before) ∧
    ∀ before op after, ops = before ++ op :: after →
      (op.run t.recorded d (runOps t d before ⟨link, c, []⟩)).1 = .ok () → ∃ l,
        nvmEvents d (runOps t d (before ++ [op]) ⟨link, c, []⟩).ctx.2 =
          nvmEvents d (runOps t d before ⟨link, c, []⟩).ctx.2 ++ l ∧ SeenReady d l := by
  have hstart : Waited d (⟨link, c, []⟩ : LinkState (σ × List Event)) := ⟨.inl rfl, trivial⟩
  have hwaited (ops : List NvmOp) : Waited d (runOps t d ops ⟨link, c, []⟩) :=
    after_invariant hstart (fun op s hs ↦ (run_waited hd op hs).1) ops
  refine ⟨fun before v after hl hv ↦ (hwaited ops).orderly.seenReady hl hv, ?_⟩
  intro before op after _ hok
  unfold runOps
  rw [after_concat]
  exact (run_waited hd op (hwaited before)).2 hok

theorem erase_and_fuse_wait :
    nvmEvents attiny412
        (runOps (answeringAttiny412 0x30) attiny412 [.eraseFlashPage 0x8000, .writeFuse 2 0x7F]
        ⟨UpdiLink.init, 0, []⟩).ctx.2 =
      [.status 0, .command 0x02, .status 0, .status 0, .command 0x07, .status 0] ∧
    ∀ before v after, nvmEvents attiny412 (runOps (answeringAttiny412 0x30) attiny412
        [.eraseFlashPage 0x8000, .writeFuse 2 0x7F] ⟨UpdiLink.init, 0, []⟩).ctx.2 = before ++
          .command v :: after →
      IsNvmCommand attiny412 v → SeenReady attiny412 before := by
  refine ⟨by decide +kernel, ?_⟩
  exact (commands_wait (answeringAttiny412 0x30) (d := attiny412) (by decide) UpdiLink.init 0
    [.eraseFlashPage 0x8000, .writeFuse 2 0x7F]).1

end Runs

end UpdiProgrammer.HostTest
