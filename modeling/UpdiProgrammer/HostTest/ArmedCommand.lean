import UpdiProgrammer.HostTest.FlashTrace
import UpdiProgrammer.HostTest.FuseRun
import UpdiProgrammer.HostTest.ReadyCommands

namespace UpdiProgrammer.HostTest

open Updi UpdiLink UpdiNvm Library.Program Prog
open UpdiTransport (Event)
open UpdiEmu (wireAddress leValue_putAddress)

def Store.byteAt (a : ℕ) : Store → Option UInt8
  | .direct address data => if address ≤ a then data[a - address]? else none
  | .block address data => if address ≤ a then data[a - address]? else none

def asksStatus (d : UpdiDevice) : List UInt8 → Bool
  | _ :: op :: operands => (op >>> 5).toNat == 0 && leValue operands == statusRegister d
  | _ => false

/-- What can be told of NVMCTRL from the line: the last byte stored to CTRLA, and
how often the status that it answered showed it ready. -/
structure Controller where
  reader : FrameReader
  asked : Bool
  ctrla : UInt8
  ready : ℕ

namespace Controller

variable (d : UpdiDevice)

/-- Between two instructions, with NOCMD in CTRLA. -/
def nocmd : Controller := ⟨.start, false, d.nvmDesc.cmdNocmd, 0⟩

def hear (k : Controller) (data : List UInt8) : Controller where
  reader := (k.reader.frame data).1
  asked := decide (k.reader.next = .instruction) && asksStatus d data
  ctrla := ((k.reader.frame data).2.filterMap (Store.byteAt (commandRegister d))).getLastD k.ctrla
  ready := k.ready

def answer (k : Controller) (status : UInt8) : Controller :=
  { k with asked := false, ready := if ShowsReady d status then k.ready + 1 else k.ready }

/-- No state follows a frame that is not delivered, a status that is not
answered, or a store that is not acknowledged. -/
def step (k : Controller) : Event → Option Controller
  | .sent data true => some (k.hear d data)
  | .sent _ false => none
  | .received _ [b] => if k.asked then some (k.answer d b) else if b = phyAck then some k else none
  | .received _ _ => none
  | .broke => some k
  | .clock _ => some k

def after : Controller → List Event → Option Controller
  | k, [] => some k
  | k, e :: es => (k.step d e).bind fun k ↦ after k es

variable {d}

theorem after_append (k : Controller) (l l' : List Event) :
    k.after d (l ++ l') = (k.after d l).bind fun k' ↦ k'.after d l' := by
  induction l generalizing k with
  | nil => rfl
  | cons e l ih => simp only [List.cons_append, after, ih, Option.bind_assoc]

theorem after_single (k : Controller) (e : Event) : k.after d [e] = k.step d e :=
  Option.bind_fun_some _

/-- The next frame is an instruction. -/
structure Idle (k : Controller) : Prop where
  next : k.reader.next = .instruction
  asked : k.asked = false

theorem Idle.hear {k : Controller} (h : k.Idle) (data : List UInt8) :
    k.hear d data = ⟨(k.reader.instruction data).1, asksStatus d data,
      ((k.reader.instruction data).2.filterMap (Store.byteAt (commandRegister d))).getLastD k.ctrla,
        k.ready⟩ := by
  have hframe : k.reader.frame data = k.reader.instruction data := by
    unfold FrameReader.frame
    rw [h.next]
  simp only [Controller.hear, hframe, h.next, decide_true, Bool.true_and]

theorem Idle.hear_plain {k : Controller} (h : k.Idle) {op : UInt8} (h₀ : (op >>> 5).toNat ≠ 0)
    (h₂ : (op >>> 5).toNat ≠ 2) (h₃ : (op >>> 5).toNat ≠ 3) (operands : List UInt8) :
    (k.hear d (phySync :: op :: operands)).Idle ∧
      (k.hear d (phySync :: op :: operands)).ready = k.ready := by
  have hasks : asksStatus d (phySync :: op :: operands) = false :=
    Bool.and_eq_false_iff.mpr (.inl (beq_false_of_ne h₀))
  have hreader : k.reader.instruction (phySync :: op :: operands) =
      ({ k.reader with next := .instruction }, []) := by
    unfold FrameReader.instruction
    dsimp only
    split
    · contradiction
    · contradiction
    · rfl
  rw [h.hear, hasks, hreader]
  exact ⟨⟨rfl, rfl⟩, rfl⟩

theorem Idle.hear_lds {k : Controller} (h : k.Idle) (hd : d.WellFormed) (a24 : Bool) :
    k.hear d ([phySync, updiLds ||| (if a24 then address24 else address16) ||| data8] ++
        putAddress a24 (statusRegister d)) =
      ⟨{ k.reader with next := .instruction }, true, k.ctrla, k.ready⟩ := by
  have hlt : statusRegister d < 2 ^ 16 := by
    unfold statusRegister UpdiDevice.nvmDesc
    rw [hd.nvmctrlBase]
    cases d.nvmVariant <;> decide
  have haddress : leValue (putAddress a24 (statusRegister d)) = statusRegister d :=
    (leValue_putAddress a24 _).trans (wireAddress_low hlt)
  have hasks :
      asksStatus d ([phySync, updiLds ||| (if a24 then address24 else address16) ||| data8] ++
      putAddress a24 (statusRegister d)) = true := by
    cases a24 <;> exact decide_eq_true haddress
  rw [h.hear, hasks]
  cases a24 <;> rfl

theorem Idle.hear_sts {k : Controller} (h : k.Idle) (a24 d16 : Bool) (address : ℕ) :
    k.hear d ([phySync, updiSts ||| (if a24 then address24 else address16) |||
        (if d16 then data16 else data8)] ++ putAddress a24 address) =
      ⟨{ k.reader with next := .direct (wireAddress a24 address) (if d16 then 2 else 1) }, false,
        k.ctrla, k.ready⟩ := by
  rw [h.hear, ← leValue_putAddress]
  cases a24 <;> cases d16 <;> rfl

theorem Idle.hear_stPtr {k : Controller} (h : k.Idle) (a24 : Bool) (address : ℕ) :
    k.hear d ([phySync, updiSt ||| ptrAddress ||| (if a24 then data24 else data16)] ++
      putAddress a24 address) =
      ⟨⟨leValue (putAddress a24 address), .instruction⟩, false, k.ctrla, k.ready⟩ := by
  rw [h.hear]
  cases a24 <;> rfl

theorem Idle.hear_block {k : Controller} (h : k.Idle) :
    k.hear d [phySync, updiSt ||| ptrInc ||| data16] =
      ⟨{ k.reader with next := .block }, false, k.ctrla, k.ready⟩ := by
  rw [h.hear]
  rfl

theorem hear_value {k : Controller} {address : ℕ} {data : List UInt8}
    (h : k.reader.next = .direct address data.length) :
    k.hear d data = ⟨{ k.reader with next := .instruction }, false,
      (Store.byteAt (commandRegister d) (.direct address data)).getD k.ctrla, k.ready⟩ := by
  have hframe :
      k.reader.frame data = ({ k.reader with next := .instruction }, [.direct address data]) := by
    unfold FrameReader.frame
    rw [h]
    exact if_pos rfl
  have hlast :
      ([Store.direct address data].filterMap (Store.byteAt (commandRegister d))).getLastD k.ctrla =
      (Store.byteAt (commandRegister d) (.direct address data)).getD k.ctrla := by
    rw [List.filterMap_cons]
    cases Store.byteAt (commandRegister d) (.direct address data) <;> rfl
  simp only [Controller.hear, hframe, hlast, h, reduceCtorEq, decide_false, Bool.false_and]

theorem hear_data {k : Controller} (h : k.reader.next = .block) (data : List UInt8) :
    (k.hear d data).Idle ∧ (k.hear d data).ready = k.ready := by
  have hframe : k.reader.frame data = (⟨k.reader.ptr + data.length, .instruction⟩,
      [.block k.reader.ptr data]) := by
    unfold FrameReader.frame
    rw [h]
  refine ⟨⟨?_, ?_⟩, rfl⟩
  · rw [Controller.hear, hframe]
  · simp only [Controller.hear, h, reduceCtorEq, decide_false, Bool.false_and]

end Controller

section Link

variable {σ α β : Type} {d : UpdiDevice}

/-- Where every frame of a run was delivered and every answer came, it takes the
controller from one state to the other. -/
def Moves (d : UpdiDevice) (m : LinkM (σ × List Event) α)
    (R : Controller → Except UpdiErr α → Controller → Prop) : Prop :=
  Emits linkLog m fun l r ↦ ∀ k k', k.after d l = some k' → R k r k'

theorem Moves.mono {m : LinkM (σ × List Event) α}
    {R R' : Controller → Except UpdiErr α → Controller → Prop} (h : Moves d m R)
    (hR : ∀ k r k', R k r k' → R' k r k') : Moves d m R' :=
  Emits.mono h fun _ _ h k k' hk ↦ hR k _ k' (h k k' hk)

theorem Moves.bind {m : LinkM (σ × List Event) α} {c : α → LinkM (σ × List Event) β}
    {R : Controller → Except UpdiErr α → Controller → Prop}
    {K : α → Controller → Except UpdiErr β → Controller → Prop}
    {R' : Controller → Except UpdiErr β → Controller → Prop} (hm : Moves d m R)
    (hc : ∀ a, Moves d (c a) (K a)) (herr : ∀ k e k', R k (.error e) k' → R' k (.error e) k')
    (hok : ∀ k a k₁ r k', R k (.ok a) k₁ → K a k₁ r k' → R' k r k') : Moves d (m >>= c) R' := by
  refine Emits.bind hm hc (fun l e h k k' hk ↦ herr k e k' (h k k' hk)) ?_
  intro l l' a r h h' k k' hk
  rw [Controller.after_append] at hk
  obtain ⟨k₁, hk₁, hk'⟩ := Option.bind_eq_some_iff.mp hk
  exact hok k a k₁ r k' (h k k₁ hk₁) (h' k₁ k' hk')

theorem Moves.attempt {m : LinkM (σ × List Event) α}
    {R : Controller → Except UpdiErr α → Controller → Prop}
    {R' : Controller → Except UpdiErr (Except UpdiErr α) → Controller → Prop} (h : Moves d m R)
    (hR : ∀ k r k', R k r k' → R' k (.ok r) k') : Moves d (attempt m) R' :=
  Emits.attempt (Emits.mono h fun _ _ h k k' hk ↦ hR k _ k' (h k k' hk))

theorem Moves.ite {c : Prop} [Decidable c] {m m' : LinkM (σ × List Event) α}
    {R : Controller → Except UpdiErr α → Controller → Prop} (h : c → Moves d m R)
    (h' : ¬c → Moves d m' R) :
    Moves d (if c then m else m') R := by
  split_ifs with hc
  · exact h hc
  · exact h' hc

theorem moves_ofStatus (r : Except UpdiErr α) :
    Moves d (ofStatus r : LinkM (σ × List Event) α) fun k r' k' ↦ r' = r ∧ k' = k :=
  fun _ ↦ ⟨[], (List.append_nil _).symm, fun _ _ hk ↦ ⟨rfl, (Option.some.inj hk).symm⟩⟩

theorem moves_pure (a : α) :
    Moves d (pure a : LinkM (σ × List Event) α) fun k r k' ↦ r = .ok a ∧ k' = k :=
  moves_ofStatus (.ok a)

theorem moves_fail (e : UpdiErr) :
    Moves d (fail e : LinkM (σ × List Event) α) fun k r k' ↦ r = .error e ∧ k' = k :=
  moves_ofStatus (.error e)

theorem moves_addr24 :
    Moves d (addr24 : LinkM (σ × List Event) Bool) fun k r k' ↦ (∃ a24, r = .ok a24) ∧ k' = k :=
  fun _ ↦ ⟨[], (List.append_nil _).symm, fun _ _ hk ↦ ⟨⟨_, rfl⟩, (Option.some.inj hk).symm⟩⟩

theorem moves_setAckEnabled (b : Bool) :
    Moves d (setAckEnabled b : LinkM (σ × List Event) Unit) fun k r k' ↦ r = .ok () ∧ k' = k :=
  fun _ ↦ ⟨[], (List.append_nil _).symm, fun _ _ hk ↦ ⟨rfl, (Option.some.inj hk).symm⟩⟩

variable (t : UpdiTransport σ)

theorem moves_millis : Moves d (millis t.recorded) fun k r k' ↦ (∃ now, r = .ok now) ∧ k' = k := by
  refine Emits.mono (emits_millis t) fun l r ⟨hl, hr⟩ k k' hk ↦ ⟨hr, ?_⟩
  rcases hl with rfl | ⟨now, rfl⟩
  · exact (Option.some.inj hk).symm
  · rw [Controller.after_single] at hk
    exact (Option.some.inj hk).symm

theorem moves_send (data : List UInt8) :
    Moves d (UpdiLink.send t.recorded data) fun k r k' ↦ r = .ok () ∧ k' = k.hear d data := by
  refine Emits.mono (emits_send t data) fun l r hl k k' hk ↦ ?_
  rcases hl with ⟨rfl, rfl⟩ | ⟨rfl, rfl⟩ <;> rw [Controller.after_single] at hk
  · exact ⟨rfl, (Option.some.inj hk).symm⟩
  · cases hk

theorem moves_recvByte :
    Moves d (recvByte t.recorded) fun k r k' ↦ k.asked = true → ∃ b, r = .ok b ∧
      k' = k.answer d b := by
  refine Emits.mono (emits_recvByte t) fun l r hl k k' hk hasked ↦ ?_
  rcases hl with ⟨b, rfl, rfl⟩ | ⟨rfl, -⟩ <;> rw [Controller.after_single] at hk
  · refine ⟨b, rfl, ?_⟩
    rw [Controller.step, if_pos hasked] at hk
    exact (Option.some.inj hk).symm
  · cases hk

theorem moves_recvAck :
    Moves d (recvAck t.recorded) fun k r k' ↦ k.asked = false → r = .ok () ∧ k' = k := by
  have hrecv : Moves d (recvRaw t.recorded 1) fun k r k' ↦ k.asked = false →
      r = .ok [phyAck] ∧ k' = k := by
    refine Emits.mono (emits_recvRaw t 1) fun l r ⟨buf, hlen, hl, hr⟩ k k' hk hasked ↦ ?_
    rw [hl, Controller.after_single] at hk
    match buf with
    | [] => cases hk
    | [b] =>
      rw [Controller.step, if_neg (by simp [hasked])] at hk
      split_ifs at hk with hack
      rw [hr, hack]
      exact ⟨rfl, (Option.some.inj hk).symm⟩
    | _ :: _ :: _ => simp at hlen
  refine hrecv.bind (K := fun buf k r k' ↦ (buf = [phyAck] → r = .ok ()) ∧ k' = k)
    (fun buf ↦ ?_) ?_ ?_
  · refine .ite (fun _ ↦ (moves_pure ()).mono fun _ _ _ h ↦ ⟨fun _ ↦ h.1, h.2⟩) fun hne ↦ ?_
    exact (moves_fail _).mono fun _ _ _ h ↦ ⟨fun heq ↦ absurd heq hne, h.2⟩
  · intro k e k' h hasked
    cases (h hasked).1
  · intro k buf k₁ r k' h h' hasked
    obtain ⟨hbuf, rfl⟩ := h hasked
    exact ⟨h'.1 (Except.ok.inj hbuf), h'.2⟩

end Link

section Steps

variable {σ α β : Type} {d : UpdiDevice}

/-- The same for what starts and ends between two instructions. -/
def Steps (d : UpdiDevice) (m : LinkM (σ × List Event) α)
    (R : Controller → Except UpdiErr α → Controller → Prop) : Prop :=
  Moves d m fun k r k' ↦ k.Idle → k'.Idle ∧ R k r k'

/-- It succeeds, and no status is shown. -/
def Passes (d : UpdiDevice) (m : LinkM (σ × List Event) α) : Prop :=
  Steps d m fun k r k' ↦ (∃ a, r = .ok a) ∧ k'.ready = k.ready

theorem Moves.passes {m : LinkM (σ × List Event) α}
    {R : Controller → Except UpdiErr α → Controller → Prop} (h : Moves d m R)
    (hR : ∀ k r k', R k r k' → k.Idle → k'.Idle ∧ (∃ a, r = .ok a) ∧ k'.ready = k.ready) :
    Passes d m := h.mono hR

theorem Steps.mono {m : LinkM (σ × List Event) α}
    {R R' : Controller → Except UpdiErr α → Controller → Prop} (h : Steps d m R)
    (hR : ∀ k r k', R k r k' → R' k r k') : Steps d m R' :=
  Moves.mono h fun k r k' h hidle ↦ ⟨(h hidle).1, hR k r k' (h hidle).2⟩

theorem Steps.bind {m : LinkM (σ × List Event) α} {c : α → LinkM (σ × List Event) β}
    {R : Controller → Except UpdiErr α → Controller → Prop}
    {K : α → Controller → Except UpdiErr β → Controller → Prop}
    {R' : Controller → Except UpdiErr β → Controller → Prop} (hm : Steps d m R)
    (hc : ∀ a, Steps d (c a) (K a)) (herr : ∀ k e k', R k (.error e) k' → R' k (.error e) k')
    (hok : ∀ k a k₁ r k', R k (.ok a) k₁ → K a k₁ r k' → R' k r k') : Steps d (m >>= c) R' := by
  refine Moves.bind hm hc (fun k e k' h hidle ↦ ⟨(h hidle).1, herr k e k' (h hidle).2⟩) ?_
  intro k a k₁ r k' h h' hidle
  obtain ⟨hidle₁, hR⟩ := h hidle
  obtain ⟨hidle', hK⟩ := h' hidle₁
  exact ⟨hidle', hok k a k₁ r k' hR hK⟩

theorem Passes.bind {m : LinkM (σ × List Event) α} {c : α → LinkM (σ × List Event) β}
    (hm : Passes d m) (hc : ∀ a, Passes d (c a)) : Passes d (m >>= c) := by
  refine Steps.bind hm hc ?_ ?_
  · rintro k e k' ⟨⟨a, ha⟩, -⟩
    cases ha
  · rintro k a k₁ r k' ⟨-, hready⟩ ⟨hr, hready'⟩
    exact ⟨hr, hready'.trans hready⟩

variable (t : UpdiTransport σ)

theorem passes_send {data : List UInt8}
    (h : ∀ k : Controller, k.Idle → (k.hear d data).Idle ∧ (k.hear d data).ready = k.ready) :
    Passes d (UpdiLink.send t.recorded data) := by
  refine (moves_send t data).passes fun k r k' ⟨hr, hk⟩ hidle ↦ ?_
  rw [hk]
  exact ⟨(h k hidle).1, ⟨(), hr⟩, (h k hidle).2⟩

theorem passes_recvAck : Passes d (recvAck t.recorded) := by
  refine (moves_recvAck t).passes fun k r k' h hidle ↦ ?_
  obtain ⟨hr, rfl⟩ := h hidle.asked
  exact ⟨hidle, ⟨(), hr⟩, rfl⟩

theorem passes_of_same {m : LinkM (σ × List Event) α}
    (h : Moves d m fun k r k' ↦ (∃ a, r = .ok a) ∧ k' = k) :
    Passes d m := by
  refine h.passes fun k r k' ⟨hr, hk⟩ hidle ↦ ?_
  rw [hk]
  exact ⟨hidle, hr, rfl⟩

theorem passes_stcs (a v : UInt8) : Passes d (stcs t.recorded a v) := by
  refine passes_send t fun k hk ↦ ?_
  have hgroup := UpdiEmu.group_stcs a
  exact hk.hear_plain (by rw [hgroup]; decide) (by rw [hgroup]; decide) (by rw [hgroup]; decide) [v]

theorem passes_setAckEnabled (b : Bool) :
    Passes d (setAckEnabled b : LinkM (σ × List Event) Unit) :=
  passes_of_same ((moves_setAckEnabled b).mono fun _ _ _ h ↦ ⟨⟨(), h.1⟩, h.2⟩)

theorem passes_stPtr (address : ℕ) : Passes d (stPtr t.recorded address) := by
  refine (passes_of_same moves_addr24).bind fun a24 ↦ ?_
  refine (passes_send t fun k hk ↦ ?_).bind fun _ ↦ passes_recvAck t
  rw [hk.hear_stPtr]
  exact ⟨⟨rfl, rfl⟩, rfl⟩

theorem passes_repeatCount {count : ℕ} (hpos : 1 ≤ count) (hmax : count ≤ maxRepeatSize) :
    Passes d (repeatCount t.recorded count) := by
  unfold repeatCount
  rw [if_neg (by omega)]
  exact passes_send t fun k hk ↦ hk.hear_plain (by decide) (by decide) (by decide) _

theorem passes_stPtrInc16Block (data : List UInt8) :
    Passes d (stPtrInc16Block t.recorded data) := by
  have hdata : Moves d (UpdiLink.send t.recorded data) fun k r k' ↦
      k.reader.next = .block → k'.Idle ∧ (∃ a, r = .ok a) ∧ k'.ready = k.ready := by
    refine (moves_send t data).mono ?_
    rintro k r k' ⟨hr, rfl⟩ hnext
    obtain ⟨hidle, hready⟩ := Controller.hear_data (d := d) hnext data
    exact ⟨hidle, ⟨(), hr⟩, hready⟩
  have hblock :
      Passes d (UpdiLink.send t.recorded [phySync, updiSt ||| ptrInc ||| data16] >>= fun _ ↦
      UpdiLink.send t.recorded data) := by
    unfold Passes Steps
    refine Moves.bind (moves_send t _) (fun _ ↦ hdata) ?_ ?_
    · rintro k e k' ⟨hr, -⟩
      cases hr
    · rintro k _ k₁ r k' ⟨-, rfl⟩ h hidle
      rw [hidle.hear_block] at h
      exact h rfl
  have henable : Passes d (enableAck t.recorded) :=
    (passes_stcs t _ _).bind fun _ ↦ passes_setAckEnabled true
  have hrest :
      Passes d (UpdiLink.send t.recorded [phySync, updiSt ||| ptrInc ||| data16] >>= fun _ ↦
      UpdiLink.send t.recorded data >>= fun _ ↦ enableAck t.recorded) := by
    rw [← Prog.bind_assoc]
    exact hblock.bind fun _ ↦ henable
  have hdisable : Passes d (disableAck t.recorded) :=
    (passes_stcs t _ _).bind fun _ ↦ passes_setAckEnabled false
  exact hdisable.bind fun _ ↦ hrest

theorem moves_stDataPhase (address : ℕ) {values : List UInt8} :
    Moves d (stDataPhase t.recorded values) fun k r k' ↦
      k.reader.next = .direct address values.length ∧ k.asked = false →
        k'.Idle ∧ r = .ok () ∧ k'.ready = k.ready ∧
          k'.ctrla = (Store.byteAt (commandRegister d) (.direct address values)).getD k.ctrla := by
  have hvalue :
      Moves d (UpdiLink.send t.recorded values >>= fun _ ↦ recvAck t.recorded) fun k r k' ↦
      k.reader.next = .direct address values.length →
        k'.Idle ∧ r = .ok () ∧ k'.ready = k.ready ∧
          k'.ctrla = (Store.byteAt (commandRegister d) (.direct address values)).getD k.ctrla := by
    refine (moves_send t values).bind (fun _ ↦ moves_recvAck t) ?_ ?_
    · rintro k e k' ⟨hr, -⟩
      cases hr
    · rintro k _ k₁ r k' ⟨-, rfl⟩ h hnext
      rw [Controller.hear_value hnext] at h
      obtain ⟨rfl, rfl⟩ := h rfl
      exact ⟨⟨rfl, rfl⟩, rfl, rfl, rfl⟩
  refine (moves_recvAck t).bind (fun _ ↦ hvalue) ?_ ?_
  · rintro k e k' h ⟨-, hasked⟩
    cases (h hasked).1
  · rintro k _ k₁ r k' h h' ⟨hnext, hasked⟩
    obtain ⟨-, rfl⟩ := h hasked
    exact h' hnext

theorem steps_store (address : ℕ) (d16 : Bool) {values : List UInt8}
    (hlen : values.length = if d16 then 2 else 1) :
    Steps d (addr24 >>= fun a24 ↦
        UpdiLink.send t.recorded ([phySync, updiSts ||| (if a24 then address24 else address16) |||
        (if d16 then data16 else data8)] ++ putAddress a24 address) >>= fun _ ↦
          stDataPhase t.recorded values)
      fun k r k' ↦ r = .ok () ∧ k'.ready = k.ready ∧ ∃ a24, k'.ctrla =
        (Store.byteAt (commandRegister d) (.direct (wireAddress a24 address) values)).getD
          k.ctrla := by
  have hframes (a24 : Bool) : Steps d (UpdiLink.send t.recorded ([phySync,
        updiSts ||| (if a24 then address24 else address16) ||| (if d16 then data16 else data8)] ++
          putAddress a24 address) >>=
      fun _ ↦ stDataPhase t.recorded values) fun k r k' ↦ r = .ok () ∧ k'.ready = k.ready ∧
        k'.ctrla = (Store.byteAt (commandRegister d)
          (.direct (wireAddress a24 address) values)).getD k.ctrla := by
    unfold Steps
    refine (moves_send t _).bind (fun _ ↦ moves_stDataPhase t (wireAddress a24 address)) ?_ ?_
    · rintro k e k' ⟨hr, -⟩
      cases hr
    · rintro k _ k₁ r k' ⟨-, rfl⟩ h hidle
      rw [hidle.hear_sts, hlen] at h
      exact h ⟨rfl, rfl⟩
  unfold Steps
  refine moves_addr24.bind hframes ?_ ?_
  · rintro k e k' ⟨⟨a24, hr⟩, -⟩
    cases hr
  · rintro k a24 k₁ r k' ⟨-, rfl⟩ h hidle
    obtain ⟨hidle', hr, hready, hctrla⟩ := h hidle
    exact ⟨hidle', hr, hready, a24, hctrla⟩

theorem passes_stByte (address : ℕ) (value : UInt8) : Passes d (stByte t.recorded address value) :=
  (steps_store t address false rfl).mono fun _ _ _ h ↦ ⟨⟨(), h.1⟩, h.2.1⟩

theorem passes_writeDataWords (address : ℕ) {data : List UInt8}
    (hlen : ¬(data.length = 0 ∨ data.length % 2 = 1)) (hmax : data.length ≤ maxRepeatSize * 2) :
    Passes d (writeDataWords t.recorded address data) := by
  unfold writeDataWords
  rw [if_neg hlen]
  split
  · exact (steps_store t address true rfl).mono fun _ _ _ h ↦ ⟨⟨(), h.1⟩, h.2.1⟩
  · rw [if_neg (by omega)]
    refine (passes_stPtr t address).bind fun _ ↦ ?_
    exact (passes_repeatCount t (by omega) (by omega)).bind fun _ ↦ passes_stPtrInc16Block t data

theorem steps_executeNvmCommand (hd : d.WellFormed) (command : UInt8) :
    Steps d (executeNvmCommand t.recorded d command) fun k r k' ↦
      r = .ok () ∧ k'.ready = k.ready ∧ k'.ctrla = command := by
  refine (steps_store t (commandRegister d) false rfl).mono fun k r k' ⟨hr, hready, a24, hctrla⟩ ↦
    ⟨hr, hready, ?_⟩
  have hlt : commandRegister d < 2 ^ 16 := by
    unfold commandRegister UpdiDevice.nvmDesc
    rw [hd.nvmctrlBase]
    cases d.nvmVariant <;> decide
  have hbyte : Store.byteAt (commandRegister d) (.direct (commandRegister d) [command]) =
      some command := by
    simp [Store.byteAt]
  rw [hctrla, wireAddress_low hlt, hbyte]
  rfl

theorem steps_ldByte_status (hd : d.WellFormed) :
    Steps d (ldByte t.recorded (statusRegister d)) fun k r k' ↦ ∃ s, r = .ok s ∧
      k'.ctrla = k.ctrla ∧
      k'.ready = if ShowsReady d s then k.ready + 1 else k.ready := by
  have hframes (a24 : Bool) : Steps d (UpdiLink.send t.recorded ([phySync,
        updiLds ||| (if a24 then address24 else address16) ||| data8] ++
          putAddress a24 (statusRegister d)) >>=
      fun _ ↦ recvByte t.recorded) fun k r k' ↦ ∃ s, r = .ok s ∧ k'.ctrla = k.ctrla ∧
        k'.ready = if ShowsReady d s then k.ready + 1 else k.ready := by
    unfold Steps
    refine (moves_send t _).bind (fun _ ↦ moves_recvByte t) ?_ ?_
    · rintro k e k' ⟨hr, -⟩
      cases hr
    · rintro k _ k₁ r k' ⟨-, rfl⟩ h hidle
      rw [hidle.hear_lds hd] at h
      obtain ⟨s, rfl, rfl⟩ := h rfl
      exact ⟨⟨rfl, rfl⟩, s, rfl, rfl, rfl⟩
  unfold Steps
  refine moves_addr24.bind hframes ?_ ?_
  · rintro k e k' ⟨⟨a24, hr⟩, -⟩
    cases hr
  · rintro k a24 k₁ r k' ⟨-, rfl⟩ h
    exact h

/-- A wait leaves CTRLA as it is, and ends well with a status that shows ready. -/
def Polls (k : Controller) (r : Except UpdiErr Unit) (k' : Controller) : Prop :=
  k'.ctrla = k.ctrla ∧ (r = .ok () ∧ k'.ready = k.ready + 1 ∨ (∃ e, r = .error e) ∧
    k'.ready = k.ready)

theorem steps_fail (e : UpdiErr) : Steps d (fail e : LinkM (σ × List Event) Unit) Polls := by
  refine (moves_fail e).mono ?_
  rintro k r k' ⟨rfl, rfl⟩ hidle
  exact ⟨hidle, rfl, .inr ⟨⟨e, rfl⟩, rfl⟩⟩

theorem steps_waitNvmReadyLoop (hd : d.WellFormed) (timeoutMs start : UInt32) (iters : ℕ) :
    Steps d (waitNvmReadyLoop t.recorded d timeoutMs start iters) Polls := by
  induction iters with
  | zero => exact steps_fail _
  | succ iters ih =>
    have hagain :
        Steps d (millis t.recorded >>= fun now ↦ if timeoutMs ≤ now - start then fail .timeout
        else waitNvmReadyLoop t.recorded d timeoutMs start iters) Polls := by
      unfold Steps
      refine (moves_millis t).bind (K := fun _ k r k' ↦ k.Idle → k'.Idle ∧ Polls k r k')
        (fun now ↦ ?_) ?_ ?_
      · exact .ite (fun _ ↦ steps_fail _) fun _ ↦ ih
      · rintro k e k' ⟨⟨now, hr⟩, -⟩
        cases hr
      · rintro k now k₁ r k' ⟨-, rfl⟩ h
        exact h
    -- Only the turn with a ready status ends well, and it is the last.
    have hjudge (s : UInt8) : Steps d (
        if s &&& d.nvmDesc.statusWrerrMask ≠ 0 then fail .nvm
        else if s &&& d.nvmDesc.statusBusyMask = 0 then pure ()
        else do
          let now ← millis t.recorded
          if timeoutMs ≤ now - start then fail .timeout
          else waitNvmReadyLoop t.recorded d timeoutMs start iters) fun k r k' ↦
        ShowsReady d s ∧ r = .ok () ∧ k' = k ∨ ¬ShowsReady d s ∧ Polls k r k' := by
      refine .ite (fun herr ↦ ?_) fun herr ↦ .ite (fun hbusy ↦ ?_) fun hbusy ↦ ?_
      · exact (steps_fail _).mono fun k r k' h ↦ .inr ⟨fun hs ↦ herr hs.1, h⟩
      · refine (moves_pure ()).mono fun k r k' ⟨hr, hk⟩ hidle ↦ ?_
        exact ⟨hk ▸ hidle, .inl ⟨⟨not_not.mp herr, hbusy⟩, hr, hk⟩⟩
      · exact hagain.mono fun k r k' h ↦ .inr ⟨fun hs ↦ hbusy hs.2, h⟩
    refine Steps.bind (steps_ldByte_status t hd) hjudge ?_ ?_
    · rintro k e k' ⟨s, hr, -⟩
      cases hr
    · rintro k s k₁ r k' ⟨s', hs, hctrla, hready⟩ h
      obtain rfl := Except.ok.inj hs
      rcases h with ⟨hshows, hr, rfl⟩ | ⟨hshows, hctrla', hready'⟩
      · rw [if_pos hshows] at hready
        exact ⟨hctrla, .inl ⟨hr, hready⟩⟩
      · rw [if_neg hshows] at hready
        rw [hready] at hready'
        exact ⟨hctrla'.trans hctrla, hready'⟩

theorem steps_waitNvmReady (hd : d.WellFormed) (timeoutMs : UInt32) :
    Steps d (waitNvmReady t.recorded d timeoutMs) Polls := by
  unfold Steps
  refine (moves_millis t).bind
    (fun start ↦ steps_waitNvmReadyLoop t hd timeoutMs start nvmMaxPollIters) ?_ ?_
  · rintro k e k' ⟨⟨now, hr⟩, -⟩
    cases hr
  · rintro k now k₁ r k' ⟨-, rfl⟩ h
    exact h

theorem steps_finishCommand (hd : d.WellFormed) (timeoutMs : UInt32) :
    Steps d (finishCommand t.recorded d timeoutMs true) fun k _ k' ↦
      k'.ctrla = d.nvmDesc.cmdNocmd ∧ k.ready ≤ k'.ready := by
  have hclear (ready : Except UpdiErr Unit) : Steps d (
      attempt (executeNvmCommand t.recorded d d.nvmDesc.cmdNocmd) >>= fun _ ↦
        (ofStatus ready : LinkM (σ × List Event) Unit)) fun k _ k' ↦
      k'.ctrla = d.nvmDesc.cmdNocmd ∧ k'.ready = k.ready := by
    have hstore : Steps d (attempt (executeNvmCommand t.recorded d d.nvmDesc.cmdNocmd)) fun k _ k' ↦
        k'.ctrla = d.nvmDesc.cmdNocmd ∧ k'.ready = k.ready :=
      (steps_executeNvmCommand t hd _).attempt fun k r k' h hidle ↦
        ⟨(h hidle).1, (h hidle).2.2.2, (h hidle).2.2.1⟩
    have hstatus : Steps d (ofStatus ready : LinkM (σ × List Event) Unit) fun k _ k' ↦ k' = k := by
      refine (moves_ofStatus ready).mono fun k r k' ⟨_, hk⟩ hidle ↦ ?_
      exact ⟨hk ▸ hidle, hk⟩
    refine Steps.bind hstore (fun _ ↦ hstatus) (fun _ _ _ h ↦ h) ?_
    rintro k _ k₁ r k' h rfl
    exact h
  have hwait : Steps d (attempt (waitNvmReady t.recorded d timeoutMs)) fun k r k' ↦
      (∃ a, r = .ok a) ∧ k.ready ≤ k'.ready := by
    refine (steps_waitNvmReady t hd timeoutMs).attempt fun k r k' h hidle ↦
      ⟨(h hidle).1, ⟨r, rfl⟩, ?_⟩
    obtain ⟨-, ⟨-, hready⟩ | ⟨-, hready⟩⟩ := (h hidle).2 <;> omega
  refine Steps.bind hwait hclear ?_ ?_
  · rintro k e k' ⟨⟨a, hr⟩, -⟩
    cases hr
  · rintro k ready k₁ r k' ⟨-, hready⟩ ⟨hctrla, hready'⟩
    exact ⟨hctrla, by omega⟩

end Steps

section Operations

variable {σ : Type} {t : UpdiTransport σ} {d : UpdiDevice} {body : LinkM (σ × List Event) Unit}
  {R : Controller → Except UpdiErr Unit → Controller → Prop}

theorem Steps.after_wait (hd : d.WellFormed) (timeoutMs : UInt32) (h : Steps d body R) :
    Steps d (waitNvmReady t.recorded d timeoutMs >>= fun _ ↦ body) fun k r k' ↦
      k'.ctrla = k.ctrla ∧ k'.ready = k.ready ∨ ∃ k₁, k₁.ctrla = k.ctrla ∧ k₁.ready = k.ready + 1 ∧
        R k₁ r k' := by
  refine Steps.bind (steps_waitNvmReady t hd timeoutMs) (fun _ ↦ h) ?_ ?_
  · rintro k e k' ⟨hctrla, ⟨hr, -⟩ | ⟨-, hready⟩⟩
    · cases hr
    · exact .inl ⟨hctrla, hready⟩
  · rintro k a k₁ r k' ⟨hctrla, ⟨-, hready⟩ | ⟨⟨e, hr⟩, -⟩⟩ hR
    · exact .inr ⟨k₁, hctrla, hready, hR⟩
    · cases hr

theorem Steps.after_command (hd : d.WellFormed) (command : UInt8) (h : Steps d body R) :
    Steps d (executeNvmCommand t.recorded d command >>= fun _ ↦ body) fun k r k' ↦
      ∃ k₁, k₁.ctrla = command ∧ k₁.ready = k.ready ∧ R k₁ r k' := by
  refine Steps.bind (steps_executeNvmCommand t hd command) (fun _ ↦ h) ?_ ?_
  · rintro k e k' ⟨hr, -⟩
    cases hr
  · rintro k a k₁ r k' ⟨-, hready, hctrla⟩ hR
    exact ⟨k₁, hctrla, hready, hR⟩

theorem Steps.after_fill {fill : LinkM (σ × List Event) Unit} (hfill : Passes d fill)
    (h : Steps d body R) :
    Steps d (fill >>= fun _ ↦ body) fun k r k' ↦ ∃ k₁, k₁.ready = k.ready ∧ R k₁ r k' := by
  refine Steps.bind hfill (fun _ ↦ h) ?_ ?_
  · rintro k e k' ⟨⟨a, hr⟩, -⟩
    cases hr
  · rintro k a k₁ r k' ⟨-, hready⟩ hR
    exact ⟨k₁, hready, hR⟩

theorem steps_commit (hd : d.WellFormed) (command : UInt8) (timeoutMs : UInt32) :
    Steps d (executeNvmCommand t.recorded d command >>= fun _ ↦
      finishCommand t.recorded d timeoutMs true)
      fun k _ k' ↦ k'.ctrla = d.nvmDesc.cmdNocmd ∧ k.ready ≤ k'.ready := by
  refine ((steps_finishCommand t hd timeoutMs).after_command hd command).mono ?_
  rintro k r k' ⟨k₁, -, hready, hctrla, hle⟩
  exact ⟨hctrla, hready ▸ hle⟩

/-- Two waits with a buffer clear between them: the second is the one that may
leave the clear behind. -/
theorem steps_cleared (hd : d.WellFormed) (clear command : UInt8)
    {fill : LinkM (σ × List Event) Unit} (hfill : Passes d fill) : Steps d (do
      waitNvmReady t.recorded d 100
      executeNvmCommand t.recorded d clear
      waitNvmReady t.recorded d 100
      fill
      executeNvmCommand t.recorded d command
      finishCommand t.recorded d 100 true) fun k _ k' ↦
        k'.ctrla = k.ctrla ∧ k'.ready = k.ready ∨ k'.ctrla = clear ∧ k'.ready = k.ready + 1 ∨
          k'.ctrla = d.nvmDesc.cmdNocmd ∧ k.ready + 2 ≤ k'.ready := by
  have hcommit := (steps_commit (t := t) hd command 100).after_fill hfill
  refine (((hcommit.after_wait hd 100).after_command hd clear).after_wait hd 100).mono ?_
  rintro k r k' (hkept | ⟨k₁, -, hready₁, k₂, hctrla₂, hready₂, hrest⟩)
  · exact .inl hkept
  rcases hrest with ⟨hctrla, hready⟩ | ⟨k₃, -, hready₃, k₄, hready₄, hctrla, hle⟩
  · exact .inr (.inl ⟨hctrla.trans hctrla₂, by omega⟩)
  · exact .inr (.inr ⟨hctrla, by omega⟩)

theorem steps_param : Steps d (fail .param : LinkM (σ × List Event) Unit) fun k _ k' ↦
    k'.ctrla = k.ctrla ∧ k'.ready = k.ready := by
  refine (moves_fail .param).mono ?_
  rintro k r k' ⟨-, rfl⟩ hidle
  exact ⟨hidle, rfl, rfl⟩

/-- The operations that clear a buffer before they fill it. -/
def NvmOp.ClearsBuffer : NvmOp → Prop
  | chipErase => False
  | eraseFlashPage _ => False
  | writeFlashPage _ _ => True
  | writeFuse _ _ => True

theorem steps_run (hmem : d ∈ deviceTable) (hv : d.nvmDesc = nvmDescP3) (op : NvmOp) :
    Steps d (op.run t.recorded d) fun k _ k' ↦ k.ctrla = d.nvmDesc.cmdNocmd →
      (k'.ctrla = d.nvmDesc.cmdNocmd ↔ ¬(op.ClearsBuffer ∧ k'.ready = k.ready + 1)) := by
  have hd := UpdiDevice.wellFormed_of_mem hmem
  have hclear : d.nvmDesc.clearCmdAfter = true := by rw [hv]; rfl
  have hcmds : d.nvmDesc.cmdPageBufferClear ≠ d.nvmDesc.cmdNocmd ∧
      d.nvmDesc.cmdEepromBufferClear ≠ d.nvmDesc.cmdNocmd := by
    rw [hv]
    decide
  have hpage : d.flashPageSize ≤ maxRepeatSize * 2 := by
    have hall : ∀ d ∈ deviceTable, d.flashPageSize ≤ maxRepeatSize * 2 := by decide
    exact hall d hmem
  have hparam : Steps d (fail .param : LinkM (σ × List Event) Unit) fun k _ k' ↦
      k.ctrla = d.nvmDesc.cmdNocmd →
      (k'.ctrla = d.nvmDesc.cmdNocmd ↔ ¬(True ∧ k'.ready = k.ready + 1)) := by
    refine steps_param.mono fun k r k' ⟨hctrla, hready⟩ hnocmd ↦ ?_
    exact iff_of_true (hctrla.trans hnocmd) (by omega)
  have hcleared {clear : UInt8} (hne : clear ≠ d.nvmDesc.cmdNocmd) (k : Controller)
      (r : Except UpdiErr Unit)
      (k' : Controller) (h : k'.ctrla = k.ctrla ∧ k'.ready = k.ready ∨ k'.ctrla = clear ∧
        k'.ready = k.ready + 1 ∨
        k'.ctrla = d.nvmDesc.cmdNocmd ∧ k.ready + 2 ≤ k'.ready) (hnocmd :
          k.ctrla = d.nvmDesc.cmdNocmd) :
      k'.ctrla = d.nvmDesc.cmdNocmd ↔ ¬(True ∧ k'.ready = k.ready + 1) := by
    rcases h with ⟨hctrla, hready⟩ | ⟨hctrla, hready⟩ | ⟨hctrla, hready⟩
    · exact iff_of_true (hctrla.trans hnocmd) fun ⟨_, h⟩ ↦ (by omega)
    · exact iff_of_false (hctrla ▸ hne) fun h ↦ h ⟨trivial, hready⟩
    · exact iff_of_true hctrla fun ⟨_, h⟩ ↦ (by omega)
  cases op with
  | chipErase =>
    have h := (steps_commit (t := t) hd d.nvmDesc.cmdChipErase 500).after_wait (t := t) hd 100
    unfold NvmOp.run UpdiNvm.chipErase
    rw [hclear]
    refine h.mono fun k r k' h hnocmd ↦ iff_of_true ?_ fun h ↦ h.1
    rcases h with ⟨hctrla, -⟩ | ⟨k₁, -, -, hctrla, -⟩
    · exact hctrla.trans hnocmd
    · exact hctrla
  | eraseFlashPage address =>
    have h := ((steps_commit (t := t) hd d.nvmDesc.cmdErasePage 100).after_fill
      (passes_stByte t address 0xFF)).after_wait (t := t) hd 100
    unfold NvmOp.run UpdiNvm.eraseFlashPage
    rw [hclear]
    refine h.mono fun k r k' h hnocmd ↦ iff_of_true ?_ fun h ↦ h.1
    rcases h with ⟨hctrla, -⟩ | ⟨k₁, -, -, k₂, -, hctrla, -⟩
    · exact hctrla.trans hnocmd
    · exact hctrla
  | writeFlashPage address data =>
    refine .ite (fun _ ↦ hparam) fun hlen ↦ .ite (fun _ ↦ hparam) fun hsize ↦ ?_
    have h := steps_cleared (t := t) hd d.nvmDesc.cmdPageBufferClear d.nvmDesc.cmdWritePage
      (passes_writeDataWords t address hlen (by omega))
    rw [hclear]
    exact h.mono (hcleared hcmds.1)
  | writeFuse index value =>
    have hvia : d.nvmDesc.fuseViaEeprom = true := by rw [hv]; rfl
    refine .ite (fun _ ↦ hparam) fun _ ↦ ?_
    have h := steps_cleared (t := t) hd d.nvmDesc.cmdEepromBufferClear d.nvmDesc.cmdEepromEraseWrite
      (passes_stByte t (d.fusesAddress + index.toNat) value)
    dsimp only
    rw [if_pos hvia]
    exact h.mono (hcleared hcmds.2)

end Operations

section Acknowledge

variable {σ : Type} (t : UpdiTransport σ) (d : UpdiDevice)

/-- An operation of P:3 up to the status of the wait for its last command. -/
def NvmOp.polled : NvmOp → LinkM σ (Except UpdiErr Unit)
  | chipErase => do
    waitNvmReady t d 100
    executeNvmCommand t d d.nvmDesc.cmdChipErase
    attempt (waitNvmReady t d 500)
  | eraseFlashPage address => do
    waitNvmReady t d 100
    writeData t address [0xFF]
    executeNvmCommand t d d.nvmDesc.cmdErasePage
    attempt (waitNvmReady t d 100)
  | writeFlashPage address data =>
    if data.length = 0 ∨ data.length % 2 = 1 then fail .param
    else if d.flashPageSize < data.length then fail .param
    else do
      waitNvmReady t d 100
      executeNvmCommand t d d.nvmDesc.cmdPageBufferClear
      waitNvmReady t d 100
      writeDataWords t address data
      executeNvmCommand t d d.nvmDesc.cmdWritePage
      attempt (waitNvmReady t d 100)
  | writeFuse index value =>
    if d.fusesSize ≤ index.toNat then fail .param
    else do
      waitNvmReady t d 100
      executeNvmCommand t d d.nvmDesc.cmdEepromBufferClear
      waitNvmReady t d 100
      writeData t (d.fusesAddress + index.toNat) [value]
      executeNvmCommand t d d.nvmDesc.cmdEepromEraseWrite
      attempt (waitNvmReady t d 100)

/-- The status of the NOCMD store is dropped. -/
theorem run_eq_polled (hv : d.nvmDesc = nvmDescP3) (op : NvmOp) : op.run t d = (do
    let ready ← op.polled t d
    let _ ← attempt (executeNvmCommand t d d.nvmDesc.cmdNocmd)
    ofStatus ready) := by
  have hclear : d.nvmDesc.clearCmdAfter = true := by rw [hv]; rfl
  have hvia : d.nvmDesc.fuseViaEeprom = true := by rw [hv]; rfl
  cases op with
  | chipErase =>
    simp only [NvmOp.run, UpdiNvm.chipErase, NvmOp.polled, finishCommand, hclear,
      Prog.bind_assoc, if_true]
  | eraseFlashPage address =>
    simp only [NvmOp.run, UpdiNvm.eraseFlashPage, NvmOp.polled, finishCommand, hclear,
      Prog.bind_assoc, if_true]
  | writeFlashPage address data =>
    simp only [NvmOp.run, UpdiNvm.writeFlashPage, NvmOp.polled, finishCommand, hclear,
      Prog.bind_assoc, if_true, ite_bind, fail_bind]
  | writeFuse index value =>
    simp only [NvmOp.run, UpdiNvm.writeFuse, NvmOp.polled, finishCommand, hvia, Prog.bind_assoc,
      if_true, ite_bind, fail_bind]

/-- The frames and answers of a byte store that is acknowledged. -/
def storeEvents (a24 : Bool) (address : ℕ) (value : UInt8) : List Event :=
  [.sent ([phySync, updiSts ||| (if a24 then address24 else address16) ||| data8] ++
    putAddress a24 address) true, .received 1 [phyAck], .sent [value] true, .received 1 [phyAck]]

/-- What the transport does with these frames when they come next. -/
def AcknowledgesStore (address : ℕ) (value : UInt8) (s : LinkState σ) : Prop :=
  let a24 := s.link.addressBytes == 3
  let sts := t.send ([phySync, updiSts ||| (if a24 then address24 else address16) ||| data8] ++
    putAddress a24 address) s.ctx
  let ack := t.recv 1 s.link.timeoutMs sts.2
  let byte := t.send [value] ack.2
  let ack' := t.recv 1 s.link.timeoutMs byte.2
  sts.1 = true ∧ ack.1 = [phyAck] ∧ byte.1 = true ∧ ack'.1 = [phyAck]

variable {t} {d} {a24 : Bool} {l l' : List Event}

theorem send_bind_ok_iff (data : List UInt8) (c : Unit → LinkM σ Unit) (s : LinkState σ) :
    ((UpdiLink.send t data >>= c) s).1 = .ok () ↔
      (t.send data s.ctx).1 = true ∧ (c () ⟨s.link, (t.send data s.ctx).2⟩).1 = .ok () := by
  have hsend :
      UpdiLink.send t data s = (if (t.send data s.ctx).1 then .ok () else .error .transport,
      ⟨s.link, (t.send data s.ctx).2⟩) := by
    unfold UpdiLink.send
    rw [bind_run]
    dsimp only [sendRaw]
    split_ifs <;> rfl
  rw [bind_run, hsend]
  by_cases hok : (t.send data s.ctx).1 = true
  · rw [if_pos hok]
    exact (and_iff_right hok).symm
  · rw [if_neg hok]
    exact iff_of_false (fun h ↦ (by cases h)) fun h ↦ hok h.1

theorem recvAck_run (s : LinkState σ) : recvAck t s =
    (if (t.recv 1 s.link.timeoutMs s.ctx).1 = [phyAck] then .ok () else .error .nack,
      ⟨s.link, (t.recv 1 s.link.timeoutMs s.ctx).2⟩) := by
  unfold recvAck
  rw [bind_run]
  dsimp only [recvRaw]
  split_ifs <;> rfl

theorem recvAck_bind_ok_iff (c : Unit → LinkM σ Unit) (s : LinkState σ) :
    ((recvAck t >>= c) s).1 = .ok () ↔ (t.recv 1 s.link.timeoutMs s.ctx).1 = [phyAck] ∧
      (c () ⟨s.link, (t.recv 1 s.link.timeoutMs s.ctx).2⟩).1 = .ok () := by
  rw [bind_run, recvAck_run]
  by_cases hack : (t.recv 1 s.link.timeoutMs s.ctx).1 = [phyAck]
  · rw [if_pos hack]
    exact (and_iff_right hack).symm
  · rw [if_neg hack]
    exact iff_of_false (fun h ↦ (by cases h)) fun h ↦ hack h.1

theorem recvAck_ok_iff (s : LinkState σ) :
    (recvAck t s).1 = .ok () ↔ (t.recv 1 s.link.timeoutMs s.ctx).1 = [phyAck] := by
  rw [recvAck_run]
  split_ifs with hack
  · exact iff_of_true rfl hack
  · exact iff_of_false (fun h ↦ (by cases h)) hack

theorem stByte_ok_iff (address : ℕ) (value : UInt8) (s : LinkState σ) :
    (stByte t address value s).1 = .ok () ↔ AcknowledgesStore t address value s := by
  unfold stByte stDataPhase AcknowledgesStore
  rw [addr24, read_bind_run, send_bind_ok_iff, recvAck_bind_ok_iff, send_bind_ok_iff,
    recvAck_ok_iff]

/-- The events of a run are these, unless it fails at one that is not an acknowledge. -/
def Expects (a24 : Bool) (m : LinkM (σ × List Event) Unit) (l₀ : List Event) : Prop :=
  EmitsWhile (Width a24) linkLog m fun l r ↦ r = .ok () ∧ l = l₀ ∨
    (∃ e, r = .error e) ∧ ∃ l' x, l = l' ++ [x] ∧ x ≠ .received 1 [phyAck]

theorem Expects.bind {m : LinkM (σ × List Event) Unit} {c : Unit → LinkM (σ × List Event) Unit}
    (hm : Expects a24 m l) (hc : ∀ a, Expects a24 (c a) l') : Expects a24 (m >>= c) (l ++ l') := by
  refine EmitsWhile.bind hm hc ?_ ?_
  · rintro l₁ e (⟨hr, -⟩ | ⟨-, h⟩)
    · cases hr
    · exact .inr ⟨⟨e, rfl⟩, h⟩
  · rintro l₁ l₂ a r (⟨-, rfl⟩ | ⟨⟨e, hr⟩, -⟩) h'
    · rcases h' with ⟨hr, rfl⟩ | ⟨hr, l₃, x, rfl, hx⟩
      · exact .inl ⟨hr, rfl⟩
      · exact .inr ⟨hr, l₁ ++ l₃, x, (List.append_assoc ..).symm, hx⟩
    · cases hr

theorem expects_send (data : List UInt8) :
    Expects a24 (UpdiLink.send t.recorded data) [.sent data true] := by
  refine EmitsWhile.mono (.of_emits (emits_send t data) fun s hs ↦ ?_) fun l r hl ↦ ?_
  · unfold Width at hs ⊢
    rwa [send_link]
  · rcases hl with ⟨rfl, rfl⟩ | ⟨rfl, rfl⟩
    · exact .inl ⟨rfl, rfl⟩
    · exact .inr ⟨⟨_, rfl⟩, [], _, rfl, Event.noConfusion⟩

theorem expects_recvAck : Expects a24 (recvAck t.recorded) [.received 1 [phyAck]] := by
  have hrecv : EmitsWhile (Width a24) linkLog (recvRaw t.recorded 1) fun l r ↦
      ∃ buf, r = .ok buf ∧ l = [.received 1 buf] :=
    EmitsWhile.mono (.of_emits (emits_recvRaw t 1) fun s hs ↦ hs) fun l r ⟨buf, _, hl, hr⟩ ↦
      ⟨buf, hr, hl⟩
  refine hrecv.bind (K := fun buf l r ↦ l = [] ∧ r = if buf = [phyAck] then .ok () else
    .error .nack) (fun buf ↦ ?_) ?_ ?_
  · split_ifs
    · exact .pure ⟨rfl, rfl⟩
    · exact .fail ⟨rfl, rfl⟩
  · rintro l e ⟨buf, hr, -⟩
    cases hr
  · rintro l l' buf r ⟨buf', hr, rfl⟩ ⟨rfl, rfl⟩
    obtain rfl := Except.ok.inj hr
    split_ifs with hack
    · exact .inl ⟨rfl, by rw [hack]; rfl⟩
    · refine .inr ⟨⟨_, rfl⟩, [], _, rfl, ?_⟩
      simpa using hack

theorem expects_stByte (address : ℕ) (value : UInt8) :
    Expects a24 (stByte t.recorded address value) (storeEvents a24 address value) := by
  refine while_addr24 ((expects_send _).bind fun _ ↦ expects_recvAck.bind fun _ ↦ ?_)
  exact (expects_send [value]).bind fun _ ↦ expects_recvAck

/-- An operation ends with the store of NOCMD, of which every frame was
delivered and acknowledged. -/
def EndsWithNocmd (d : UpdiDevice) (log : List Event) : Prop :=
  ∃ a24, storeEvents a24 (commandRegister d) d.nvmDesc.cmdNocmd <:+ log

theorem endsWithNocmd_iff (s : LinkState (σ × List Event)) :
    EndsWithNocmd d (linkLog (executeNvmCommand t.recorded d d.nvmDesc.cmdNocmd s).2) ↔
      AcknowledgesStore t.recorded (commandRegister d) d.nvmDesc.cmdNocmd s := by
  rw [← stByte_ok_iff]
  obtain ⟨l, hlog, -, hexpects⟩ :=
    expects_stByte (t := t) (commandRegister d) d.nvmDesc.cmdNocmd s rfl
  have hrun : executeNvmCommand t.recorded d d.nvmDesc.cmdNocmd s =
      stByte t.recorded (commandRegister d) d.nvmDesc.cmdNocmd s := rfl
  rw [hrun, hlog]
  rcases hexpects with ⟨hr, rfl⟩ | ⟨⟨e, hr⟩, l', x, rfl, hx⟩
  · exact iff_of_true ⟨_, List.suffix_append _ _⟩ hr
  · refine iff_of_false ?_ fun hok ↦ (by cases hr.symm.trans hok)
    rintro ⟨a24, before, heq⟩
    have hlast := congrArg List.getLast? heq
    simp [storeEvents] at hlast
    exact hx hlast.symm

/-- Success is reported as soon as the last wait succeeds. -/
theorem ok_endsWithNocmd_iff (hv : d.nvmDesc = nvmDescP3) (op : NvmOp)
    (s : LinkState (σ × List Event)) :
    ((op.run t.recorded d s).1 = .ok () → EndsWithNocmd d (linkLog (op.run t.recorded d s).2)) ↔
      ∀ s', op.polled t.recorded d s = (.ok (.ok ()), s') →
        AcknowledgesStore t.recorded (commandRegister d) d.nvmDesc.cmdNocmd s' := by
  rw [run_eq_polled _ _ hv]
  rcases hpolled : op.polled t.recorded d s with ⟨e | ready, s'⟩
  · rw [bind_error hpolled]
    exact iff_of_true (fun h ↦ (by cases h)) fun s' h ↦ (by cases h)
  · rw [bind_ok hpolled, bind_run, attempt_run]
    dsimp only
    rw [ofStatus_run, endsWithNocmd_iff]
    constructor
    · intro h s'' heq
      cases heq
      exact h rfl
    · rintro h rfl
      exact h s' rfl

/-- Over a line that loses nothing CTRLA is NOCMD after the call unless a buffer was
cleared and the one ready status was that before it. Over any line a success comes with
the acknowledged store of NOCMD unless the line fails that store after the last wait. -/
theorem nocmd_restored_iff (hmem : d ∈ deviceTable) (hv : d.nvmVariant = .p3) (op : NvmOp)
    (t : UpdiTransport σ) (link : UpdiLink) (c : σ) :
    (∀ k, (Controller.nocmd d).after d (op.run t.recorded d ⟨link, c, []⟩).2.ctx.2 = some k →
      (k.ctrla = d.nvmDesc.cmdNocmd ↔ ¬(op.ClearsBuffer ∧ k.ready = 1))) ∧
    (((op.run t.recorded d ⟨link, c, []⟩).1 = .ok () →
        EndsWithNocmd d (op.run t.recorded d ⟨link, c, []⟩).2.ctx.2) ↔
      ∀ s, op.polled t.recorded d ⟨link, c, []⟩ = (.ok (.ok ()), s) →
        AcknowledgesStore t.recorded (commandRegister d) d.nvmDesc.cmdNocmd s) := by
  have hdesc : d.nvmDesc = nvmDescP3 := by
    unfold UpdiDevice.nvmDesc
    rw [hv]
  refine ⟨fun k hk ↦ ?_, ok_endsWithNocmd_iff hdesc op ⟨link, c, []⟩⟩
  obtain ⟨l, hlog, hsteps⟩ := steps_run (t := t) hmem hdesc op ⟨link, c, []⟩
  have hl : (op.run t.recorded d ⟨link, c, []⟩).2.ctx.2 = l := hlog
  rw [hl] at hk
  obtain ⟨-, hctrla⟩ := hsteps _ _ hk ⟨rfl, rfl⟩
  have hready : (Controller.nocmd d).ready + 1 = 1 := rfl
  rw [hctrla rfl, hready]

end Acknowledge

/-- Every frame is delivered, and the answers come from a list. -/
def answeredBy : UpdiTransport (List UInt8) where
  send _ answers := (true, answers)
  recv len _ answers := (answers.take len, answers.drop len)
  recv_length len _ answers := List.length_take_le len answers
  doubleBreak := none
  millis := none

/-- An AVR64EA28 that gives these answers, and nothing after them. -/
abbrev answeredRun (op : NvmOp) (answers : List UInt8) :
    Except UpdiErr Unit × LinkState (List UInt8 × List Event) :=
  op.run answeredBy.recorded avr64ea28 ⟨UpdiLink.setAddressSize 3 UpdiLink.init, answers, []⟩

/-- The controller is ready each time, and every store of a fuse write is acknowledged. -/
def fuseAnswers : List UInt8 :=
  [0, phyAck, phyAck, 0, phyAck, phyAck, phyAck, phyAck, 0, phyAck, phyAck]

theorem fuse_write_restores :
    (answeredRun (.writeFuse 7 0x5A) fuseAnswers).1 = .ok () ∧
    (∃ k, (Controller.nocmd avr64ea28).after avr64ea28
      (answeredRun (.writeFuse 7 0x5A) fuseAnswers).2.ctx.2 = some k ∧
      (k.ctrla = avr64ea28.nvmDesc.cmdNocmd ↔
        ¬((NvmOp.writeFuse 7 0x5A).ClearsBuffer ∧ k.ready = 1))) ∧
    (((answeredRun (.writeFuse 7 0x5A) fuseAnswers).1 = .ok () →
        EndsWithNocmd avr64ea28 (answeredRun (.writeFuse 7 0x5A) fuseAnswers).2.ctx.2) ↔
      ∀ s, NvmOp.polled answeredBy.recorded avr64ea28 (.writeFuse 7 0x5A)
          ⟨UpdiLink.setAddressSize 3 UpdiLink.init, fuseAnswers, []⟩ = (.ok (.ok ()), s) →
        AcknowledgesStore answeredBy.recorded
          (commandRegister avr64ea28) avr64ea28.nvmDesc.cmdNocmd s) := by
  have hrestored :=
    nocmd_restored_iff (d := avr64ea28) (by decide) rfl (.writeFuse 7 0x5A) answeredBy
    (UpdiLink.setAddressSize 3 UpdiLink.init) fuseAnswers
  refine ⟨by decide +kernel, ?_, ?_⟩
  · have hsome : ((Controller.nocmd avr64ea28).after avr64ea28
        (answeredRun (.writeFuse 7 0x5A) fuseAnswers).2.ctx.2).isSome = true := by decide +kernel
    obtain ⟨k, hk⟩ := Option.isSome_iff_exists.mp hsome
    have hctrla := hrestored.1 k
    with_reducible exact ⟨k, hk, hctrla hk⟩
  · have hends := hrestored.2
    with_reducible exact hends

/-- A write error after the buffer clear leaves the clear in CTRLA, and a chip erase
whose store of NOCMD nothing answers is a success. -/
theorem buffer_clear_left :
    (∃ k, (Controller.nocmd avr64ea28).after avr64ea28
        (answeredRun (.writeFlashPage 0x800000 [1, 2, 3, 4]) [0, phyAck, phyAck, 0x10]).2.ctx.2 =
          some k ∧
      k.ctrla ≠ avr64ea28.nvmDesc.cmdNocmd) ∧
    (answeredRun .chipErase [0, phyAck, phyAck, 0]).1 = .ok () ∧
      ¬EndsWithNocmd avr64ea28 (answeredRun .chipErase [0, phyAck, phyAck, 0]).2.ctx.2 := by
  refine ⟨?_, by decide +kernel, ?_⟩
  · have hctrla :
        ((Controller.nocmd avr64ea28).after avr64ea28
          (answeredRun (.writeFlashPage 0x800000 [1, 2, 3, 4])
        [0, phyAck, phyAck, 0x10]).2.ctx.2).map Controller.ctrla = some 0x0F := by
      decide +kernel
    obtain ⟨k, hk, hclear⟩ := Option.map_eq_some_iff.mp hctrla
    refine ⟨k, hk, ?_⟩
    rw [hclear]
    decide
  · rintro ⟨a24, hends⟩
    have hall : ∀ a24, ¬storeEvents a24 (commandRegister avr64ea28) avr64ea28.nvmDesc.cmdNocmd <:+
        (answeredRun .chipErase [0, phyAck, phyAck, 0]).2.ctx.2 := by
      decide +kernel
    exact hall a24 hends

end UpdiProgrammer.HostTest
