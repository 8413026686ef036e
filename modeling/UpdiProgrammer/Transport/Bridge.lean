import UpdiProgrammer.HostTest.Replies
import UpdiProgrammer.Transport.Echo

namespace UpdiProgrammer.Transport

open Updi HostTest UpdiEmu TransportFuri

/-- How the line keeps time during one call: at each visit to the stream buffer the
tick, how many of the bytes in flight come in, and whether the next one does before
the receive gives up. -/
structure Pace where
  now : ℕ → UInt32
  arrive : ℕ → ℕ
  prompt : ℕ → Bool

/-- The paces of the calls to come, by what is called. -/
structure Paces where
  send : ℕ → Pace
  recv : ℕ → Pace
  rest : ℕ → Pace

namespace Pace

def visit (p : Pace) (answers : List Answer) (j : ℕ) : Visit :=
  ⟨p.now j, answers, p.arrive j, p.prompt j⟩

/-- A frame to whose bytes the target replies one after the other: it cuts in with
all but the last reply. -/
def frame (p : Pace) (n : ℕ) (replies : List (List UInt8)) : Timing where
  gaps i := if i = 0 then [] else (replies.getD (i - 1) []).map (Answer.mk n)
  visits j := p.visit (if j = 1 then (replies.getLastD []).map (Answer.mk n) else []) j

end Pace

/-- The transport with a target at the other end of its line, and the number of
calls made. Nothing that the target answers stays behind in it. -/
structure Bridge where
  tr : TransportFuri
  target : UpdiEmu
  calls : ℕ

namespace Bridge

variable (P : AckPolicy) (msToTicks : ℕ → UInt32) (freq : UInt32) (paces : Paces)

def iface : UpdiTransport Bridge where
  send data c :=
    let (replies, target) := hear P c.target data
    let (ok, tr) :=
      furiSendImpl msToTicks ((paces.send c.calls).frame (c.tr.frames + 1) replies) data c.tr
    (ok, ⟨tr, target, c.calls + 1⟩)
  recv len timeoutMs c :=
    let r := furiRecvImpl msToTicks ((paces.recv c.calls).visit []) 0 len timeoutMs c.tr
    (r.1.map LineByte.value, ⟨r.2.2, c.target, c.calls + 1⟩)
  recv_length _ _ _ := Nat.le_trans (Nat.le_of_eq (List.length_map _)) recvLoop_length
  doubleBreak := some fun c ↦
    ⟨furiDoubleBreakImpl ((paces.rest c.calls).frame c.tr.frames []) c.tr,
      { c.target with state := .idle }, c.calls + 1⟩
  millis := some fun c ↦
    (furiMillisImpl freq ((paces.rest c.calls).now 0), { c with calls := c.calls + 1 })

end Bridge

/-- Echoes and answers come in before a receive gives up, those of a BREAK within the
delay after it, and no receive starts so late that its deadline wraps around. -/
structure Paces.Timely (msToTicks : ℕ → UInt32) (paces : Paces) : Prop where
  send : ∀ n j, (paces.send n).prompt j = true
  recv : ∀ n j, (paces.recv n).prompt j = true
  rest : ∀ n j, (paces.rest n).prompt j = true
  inTime : ∀ n j, (paces.recv n).now j < (paces.recv n).now 0 + msToTicks UpdiLink.init.timeoutMs

namespace TransportFuri

variable {msToTicks : ℕ → UInt32} {visits visits' : ℕ → Visit} {tr tr' : TransportFuri}

/-- Nothing was dropped, and all that is still to be received fits the stream buffer. -/
def Roomy (tr : TransportFuri) : Prop := tr.overflowed = false ∧ tr.fifo.length ≤ updiRxStreamSize

theorem advance_roomy {v : Visit} (hquiet : v.answers = []) (h : tr.Roomy) (atLeast : ℕ) :
    (tr.advance v atLeast).overflowed = false := by
  obtain ⟨hroom, hfits⟩ := h
  have hlen : tr.fifo.length = tr.rxStream.length + tr.line.length := List.length_append
  unfold advance
  rw [comeIn_fits]
  · exact hroom
  · simp only [hquiet, List.map_nil, List.append_nil, List.length_take]
    omega

theorem Takes.quiet {bytes : List LineByte} (h : Takes visits tr bytes tr')
    (hquiet : ∀ j, (visits j).answers = []) :
    bytes ++ tr'.fifo = tr.fifo := by
  obtain ⟨answers, hmem, hfifo⟩ := h.fifo
  have hnone : answers = [] := by
    apply List.eq_nil_iff_forall_not_mem.mpr
    intro a ha
    obtain ⟨j, hj⟩ := hmem a ha
    rw [hquiet j] at hj
    cases hj
  rw [hfifo, hnone, List.map_nil, List.append_nil]

theorem Roomy.of_quiet {bytes : List LineByte} (h : tr.Roomy) (hroom : tr'.overflowed = false)
    (hfifo : bytes ++ tr'.fifo = tr.fifo) : tr'.Roomy := by
  have hcount := congrArg List.length hfifo
  rw [List.length_append] at hcount
  exact ⟨hroom, by have hfits := h.2; omega⟩

section Quiet

variable (hquiet : ∀ j, (visits j).answers = [])
include hquiet

theorem streamReceive_roomy (h : tr.Roomy) (i want : ℕ) :
    (tr.streamReceive (visits i) want).2.Roomy := by
  have hroom : (tr.streamReceive (visits i) want).2.overflowed = false :=
    advance_roomy (hquiet i) h _
  exact h.of_quiet hroom ((streamReceive_takes hroom).quiet hquiet)

theorem recvLoop_roomy {deadline : UInt32} {fuel i want : ℕ} (h : tr.Roomy) :
    (recvLoop visits deadline fuel i want tr).2.2.Roomy := by
  induction fuel generalizing i want tr with
  | zero => exact h
  | succ fuel ih =>
    rw [recvLoop]
    have hreceive := streamReceive_roomy hquiet h i want
    split_ifs
    · exact h
    · dsimp only
      split_ifs
      · exact hreceive
      · exact ih hreceive

theorem discardLoop_roomy {fuel i left : ℕ} (h : tr.Roomy) :
    (discardLoop msToTicks visits fuel i left tr).2.Roomy := by
  induction fuel generalizing i left tr with
  | zero => exact h
  | succ fuel ih =>
    rw [discardLoop]
    have hrecv : (furiRecvImpl msToTicks visits i (min left 64) updiEchoTimeoutMs tr).2.2.Roomy :=
      recvLoop_roomy hquiet h
    split_ifs
    · exact h
    · dsimp only
      split_ifs
      · exact hrecv
      · exact ih hrecv

theorem recvLoop_whole {deadline : UInt32} {fuel i want : ℕ}
    (hprompt : ∀ j, (visits j).prompt = true) (htime : ∀ j, (visits j).now < deadline)
    (hfuel : want ≤ fuel) (h : tr.Roomy) :
    min want tr.fifo.length ≤ (recvLoop visits deadline fuel i want tr).1.length := by
  induction fuel generalizing i want tr with
  | zero => omega
  | succ fuel ih =>
    rw [recvLoop]
    by_cases hwant : want = 0
    · rw [hwant, Nat.zero_min]
      exact Nat.zero_le _
    · rw [if_neg hwant]
      dsimp only
      have hreceive := streamReceive_roomy hquiet h i want
      have hfifo := congrArg List.length ((streamReceive_takes hreceive.1).quiet hquiet)
      rw [List.length_append] at hfifo
      by_cases hnone : (tr.streamReceive (visits i) want).1 = []
      · -- an empty visit means that nothing is left
        have hempty : tr.fifo = [] := by
          by_contra hne
          exact streamReceive_prompt (hprompt i) (by omega) hne hreceive.1 hnone
        rw [hempty, List.length_nil, Nat.min_zero]
        exact Nat.zero_le _
      · have hpos := List.length_pos_iff.mpr hnone
        have hlast : ¬(deadline ≤ (visits i).now ∨ (tr.streamReceive (visits i) want).1 = []) := by
          rintro (hlate | hnil)
          · exact absurd (htime i) (UInt32.not_lt.mpr hlate)
          · exact hnone hnil
        have hleft : want - (tr.streamReceive (visits i) want).1.length ≤ fuel := by omega
        have hrest := ih (i := i + 1) hleft hreceive
        rw [if_neg hlast, List.length_append]
        omega

theorem furiRecvImpl_exact {timeoutMs : ℕ} (hprompt : ∀ j, (visits j).prompt = true)
    (htime : ∀ j, (visits j).now < (visits 0).now + msToTicks timeoutMs) (h : tr.Roomy) (len : ℕ) :
    (furiRecvImpl msToTicks visits 0 len timeoutMs tr).2.2.Roomy ∧
      (furiRecvImpl msToTicks visits 0 len timeoutMs tr).1 = tr.fifo.take len ∧
      (furiRecvImpl msToTicks visits 0 len timeoutMs tr).2.2.fifo = tr.fifo.drop len := by
  have hroomy : (furiRecvImpl msToTicks visits 0 len timeoutMs tr).2.2.Roomy :=
    recvLoop_roomy hquiet h
  have hfifo : (furiRecvImpl msToTicks visits 0 len timeoutMs tr).1 ++
      (furiRecvImpl msToTicks visits 0 len timeoutMs tr).2.2.fifo = tr.fifo :=
        (recvLoop_takes hroomy.1).quiet hquiet
  have hle : (furiRecvImpl msToTicks visits 0 len timeoutMs tr).1.length ≤ len := recvLoop_length
  have hge : min len tr.fifo.length ≤ (furiRecvImpl msToTicks visits 0 len timeoutMs tr).1.length :=
    recvLoop_whole hquiet hprompt htime (Nat.le_refl _) h
  have hcount := congrArg List.length hfifo
  rw [List.length_append] at hcount
  refine ⟨hroomy, ?_⟩
  rw [← hfifo]
  by_cases hall : len ≤ tr.fifo.length
  · have hlen : (furiRecvImpl msToTicks visits 0 len timeoutMs tr).1.length = len := by omega
    exact ⟨(List.take_left' hlen).symm, (List.drop_left' hlen).symm⟩
  · have hnil : (furiRecvImpl msToTicks visits 0 len timeoutMs tr).2.2.fifo = [] :=
      List.length_eq_zero_iff.mp (by omega)
    rw [hnil, List.append_nil]
    exact ⟨(List.take_of_length_le hle).symm, (List.drop_of_length_le hle).symm⟩

theorem discardLoop_exact (hprompt : ∀ j, (visits j).prompt = true) {echo rest : List LineByte}
    (h : tr.Roomy) (hfifo : tr.fifo = echo ++ rest) :
    (discardLoop msToTicks visits echo.length 0 echo.length tr).1 = true ∧
      (discardLoop msToTicks visits echo.length 0 echo.length tr).2.Roomy ∧
      (discardLoop msToTicks visits echo.length 0 echo.length tr).2.fifo = rest := by
  have hroomy : (discardLoop msToTicks visits echo.length 0 echo.length tr).2.Roomy :=
    discardLoop_roomy hquiet h
  obtain ⟨dropped, htakes, hcount, hok⟩ := discardLoop_takes (Nat.le_refl echo.length) hroomy.1
  have htrue := hok hprompt (by rw [hfifo, List.length_append]; omega)
  have hdropped := (htakes.quiet hquiet).trans hfifo
  exact ⟨htrue, hroomy, (List.append_inj hdropped (hcount htrue)).2⟩

end Quiet

theorem recvLoop_congr {deadline : UInt32} {fuel i want : ℕ}
    (h : ∀ j, i ≤ j → visits j = visits' j) :
    recvLoop visits deadline fuel i want tr = recvLoop visits' deadline fuel i want tr ∧
      i ≤ (recvLoop visits' deadline fuel i want tr).2.1 := by
  induction fuel generalizing i want tr with
  | zero => exact ⟨rfl, Nat.le_refl _⟩
  | succ fuel ih =>
    have hrest {want : ℕ} {tr : TransportFuri} :=
      @ih tr (i + 1) want fun j hj ↦ h j (Nat.le_of_succ_le hj)
    rw [recvLoop, recvLoop, h i (Nat.le_refl i)]
    split_ifs
    · exact ⟨rfl, Nat.le_refl _⟩
    · dsimp only
      split_ifs
      · exact ⟨rfl, Nat.le_succ i⟩
      · rw [hrest.1]
        exact ⟨rfl, Nat.le_of_succ_le hrest.2⟩

theorem discardLoop_congr {fuel i left : ℕ} (h : ∀ j, i ≤ j → visits j = visits' j) :
    discardLoop msToTicks visits fuel i left tr = discardLoop msToTicks visits' fuel i left tr := by
  induction fuel generalizing i left tr with
  | zero => rfl
  | succ fuel ih =>
    have hloop {deadline : UInt32} {want : ℕ} :=
      @recvLoop_congr visits visits' tr deadline want (i + 1) want
      fun j hj ↦ h j (Nat.le_of_succ_le hj)
    rw [discardLoop, discardLoop, furiRecvImpl, furiRecvImpl, h i (Nat.le_refl i), hloop.1]
    split_ifs
    · rfl
    · dsimp only
      split_ifs
      · rfl
      · exact ih fun j hj ↦ h j (Nat.le_trans (Nat.le_of_succ_le hloop.2) hj)

section FirstVisit

variable {answers : List Answer}
  (hsame : ∀ j, visits j = { visits' j with answers := if j = 1 then answers else [] })
  (hquiet : ∀ j, (visits' j).answers = [])
include hsame hquiet

theorem visits_after {j : ℕ} (hj : 2 ≤ j) : visits j = visits' j := by
  rw [hsame j, if_neg (by omega), ← hquiet j]

theorem recvLoop_first {deadline : UInt32} {fuel want : ℕ} (hfuel : 0 < fuel) (hwant : 0 < want) :
    recvLoop visits deadline fuel 1 want tr =
        recvLoop visits' deadline fuel 1 want
          { tr with line := tr.line ++ answers.map Answer.onLine } ∧
      2 ≤ (recvLoop visits deadline fuel 1 want tr).2.1 := by
  obtain ⟨fuel, rfl⟩ := Nat.exists_eq_succ_of_ne_zero (Nat.ne_of_gt hfuel)
  have hreceive : tr.streamReceive (visits 1) want =
      { tr with line := tr.line ++ answers.map Answer.onLine }.streamReceive (visits' 1) want := by
    have hnone := hquiet 1
    rw [hsame 1]
    simp [streamReceive, advance, hnone]
  have hnow : (visits 1).now = (visits' 1).now := by rw [hsame 1]
  have hrest {want : ℕ} {tr : TransportFuri} :=
    @recvLoop_congr visits visits' tr deadline fuel 2 want
    fun j hj ↦ visits_after hsame hquiet hj
  rw [recvLoop, recvLoop, if_neg (Nat.ne_of_gt hwant), if_neg (Nat.ne_of_gt hwant), hreceive, hnow]
  dsimp only
  split_ifs
  · exact ⟨rfl, Nat.le_refl 2⟩
  · rw [hrest.1]
    exact ⟨rfl, hrest.2⟩

/-- What the target sends in the first visit of a send might as well be in flight before it. -/
theorem discardLoop_first {fuel left : ℕ} (hfuel : 0 < fuel) (hleft : 0 < left) :
    discardLoop msToTicks visits fuel 0 left tr =
      discardLoop msToTicks visits' fuel 0 left
        { tr with line := tr.line ++ answers.map Answer.onLine } := by
  obtain ⟨fuel, rfl⟩ := Nat.exists_eq_succ_of_ne_zero (Nat.ne_of_gt hfuel)
  have hnow : (visits 0).now = (visits' 0).now := by rw [hsame 0]
  have hwant : 0 < min left 64 := by omega
  obtain ⟨hloop, hindex⟩ :=
    @recvLoop_first _ _ tr _ hsame hquiet ((visits' 0).now + msToTicks updiEchoTimeoutMs) _ _
    hwant hwant
  rw [hloop] at hindex
  rw [discardLoop, discardLoop, if_neg (Nat.ne_of_gt hleft), if_neg (Nat.ne_of_gt hleft),
    furiRecvImpl, furiRecvImpl, hnow, hloop]
  dsimp only
  split_ifs
  · rfl
  · exact discardLoop_congr fun j hj ↦ visits_after hsame hquiet (Nat.le_trans hindex hj)

end FirstVisit

theorem wire_quiet {gaps : ℕ → List Answer} {frame i : ℕ} {data : List UInt8}
    (h : ∀ j < data.length, gaps (i + j) = []) :
    wire gaps frame i data = data.map fun b ↦ ⟨b, .echo frame⟩ := by
  induction data generalizing i with
  | nil => rfl
  | cons b rest ih =>
    have hfirst : gaps i = [] := h 0 (Nat.succ_pos _)
    have hrest : ∀ j < rest.length, gaps (i + 1 + j) = [] := by
      intro j hj
      rw [Nat.add_assoc, Nat.add_comm 1 j]
      exact h (j + 1) (Nat.succ_lt_succ hj)
    rw [wire, hfirst, ih hrest]
    rfl

theorem furiSendImpl_exact {p : Pace} (hprompt : ∀ j, p.prompt j = true)
    (hroom : tr.overflowed = false) (hnone : tr.fifo = []) {data reply : List UInt8}
    (hne : data ≠ []) (hfits : data.length + reply.length ≤ updiRxStreamSize) {tm : Timing}
    (htm : tm = p.frame (tr.frames + 1) (List.replicate (data.length - 1) [] ++ [reply])) :
    (furiSendImpl msToTicks tm data tr).1 = true ∧ (furiSendImpl msToTicks tm data tr).2.Roomy ∧
      (furiSendImpl msToTicks tm data tr).2.fifo.map LineByte.value = reply := by
  let answers : List Answer := reply.map (Answer.mk (tr.frames + 1))
  let echo : List LineByte := data.map fun b ↦ ⟨b, .echo (tr.frames + 1)⟩
  let sent : TransportFuri :=
    { tr with frames := tr.frames + 1, line := echo ++ answers.map Answer.onLine }
  have hpos : 0 < data.length := List.length_pos_iff.mpr hne
  have hgaps : ∀ j < data.length, tm.gaps (0 + j) = [] := by
    intro j hj
    rw [htm, Nat.zero_add]
    unfold Pace.frame
    dsimp only
    split_ifs with h0
    · rfl
    · have hlast : j - 1 < data.length - 1 := by omega
      simp [List.getD_eq_getElem?_getD, List.getElem?_append_left, hlast]
  have hvisits (j : ℕ) :
      tm.visits j = { p.visit [] j with answers := if j = 1 then answers else [] } := by
    rw [htm]
    unfold Pace.frame Pace.visit
    rw [List.getLastD_concat]
  have hquiet (j : ℕ) : (p.visit [] j).answers = [] := rfl
  obtain ⟨hstream, hline⟩ := List.append_eq_nil_iff.mp hnone
  have hrun : furiSendImpl msToTicks tm data tr =
      discardLoop msToTicks (p.visit []) echo.length 0 echo.length sent := by
    unfold furiSendImpl
    rw [discardLoop_first hvisits hquiet hpos hpos, List.length_map]
    unfold serialTx
    rw [wire_quiet hgaps, hline]
    rfl
  have hfifo : sent.fifo = echo ++ answers.map Answer.onLine := by
    unfold fifo
    rw [hstream, List.nil_append]
  have hroomy : sent.Roomy := by
    refine ⟨hroom, ?_⟩
    rw [hfifo]
    simpa [echo, answers] using hfits
  obtain ⟨hok, hroomy', hrest⟩ := @discardLoop_exact msToTicks _ _ hquiet hprompt _ _ hroomy hfifo
  rw [hrun, hrest, List.map_map, List.map_map]
  exact ⟨hok, hroomy', List.map_id _⟩

theorem delay_roomy {v : Visit} (hquiet : v.answers = []) (hprompt : v.prompt = true)
    (h : tr.Roomy) :
    (tr.delay v).overflowed = false ∧ (tr.delay v).rxStream = tr.fifo ∧ (tr.delay v).line = [] := by
  have hroom : (tr.advance v tr.line.length).overflowed = false := advance_roomy hquiet h _
  obtain ⟨-, m, hm, hrun⟩ := advance_eq hroom
  refine ⟨hroom, ?_⟩
  unfold delay fifo
  rw [hrun, hquiet, List.map_nil, List.append_nil]
  exact ⟨by rw [List.take_of_length_le (hm hprompt)], List.drop_eq_nil_of_le (hm hprompt)⟩

theorem furiDoubleBreakImpl_exact {tm : Timing} (hgaps : ∀ j, tm.gaps j = [])
    (hquiet : ∀ j, (tm.visits j).answers = []) (hprompt : ∀ j, (tm.visits j).prompt = true)
    (hroom : tr.overflowed = false) (hnone : tr.fifo = []) :
    (furiDoubleBreakImpl tm tr).Roomy ∧ (furiDoubleBreakImpl tm tr).fifo = [] := by
  have hempty : tr.Roomy := ⟨hroom, by rw [hnone]; exact Nat.zero_le _⟩
  have hfirst : (tr.advance (tm.visits 0) 0).overflowed = false := advance_roomy (hquiet 0) hempty 0
  have hline : (tr.advance (tm.visits 0) 0).line = [] := by
    obtain ⟨-, m, -, hrun⟩ := advance_eq hfirst
    rw [hrun, hquiet 0, (List.append_eq_nil_iff.mp hnone).2]
    exact List.drop_nil
  have hwire (i frame : ℕ) : wire tm.gaps frame i [0x00] = [⟨0x00, .echo frame⟩] :=
    wire_quiet fun j _ ↦ hgaps _
  let tr₁ := (tr.advance (tm.visits 0) 0).streamReset.serialTx tm.gaps 0 [0x00]
  let tr₂ := (tr₁.delay (tm.visits 1)).serialTx tm.gaps 1 [0x00]
  have hone : tr₁.fifo.length = 1 := by
    simp [tr₁, fifo, serialTx, streamReset, hline, hwire]
  have hroomy₁ : tr₁.Roomy := by
    refine ⟨hfirst, ?_⟩
    rw [hone]
    decide
  obtain ⟨hroom₁, hstream₁, hline₁⟩ := delay_roomy (hquiet 1) (hprompt 1) hroomy₁
  have htwo : tr₂.fifo.length = 2 := by
    have hfifo : tr₂.fifo = (tr₁.delay (tm.visits 1)).rxStream ++
        ((tr₁.delay (tm.visits 1)).line ++ wire tm.gaps (tr₁.delay (tm.visits 1)).frames 1
          [0x00]) := rfl
    rw [hfifo, hstream₁, hline₁, hwire, List.nil_append, List.length_append, hone]
    rfl
  have hroomy₂ : tr₂.Roomy := by
    refine ⟨hroom₁, ?_⟩
    rw [htwo]
    decide
  obtain ⟨hroom₂, -, hline₂⟩ := delay_roomy (hquiet 2) (hprompt 2) hroomy₂
  have hfifo : (furiDoubleBreakImpl tm tr).fifo = [] := hline₂
  exact ⟨⟨hroom₂, by rw [hfifo]; exact Nat.zero_le _⟩, hfifo⟩

end TransportFuri

/-- The bridge with an emulated target on the line, and the emulator that answers by
itself: the same target but for the clock, and the same bytes to be received. -/
structure Carries (e : UpdiEmu) (c : Bridge) : Prop where
  target : ∃ n, c.target = atTime n { e with rx := [] }
  fifo : c.tr.fifo.map LineByte.value = e.rx
  roomy : c.tr.Roomy

namespace Carries

variable {P : AckPolicy} {msToTicks : ℕ → UInt32} {freq : UInt32} {paces : Paces} {e : UpdiEmu}
  {c : Bridge} {data : List UInt8}

theorem millis (h : Carries e c) :
    Carries { e with nowMs := e.nowMs + 1 } { c with calls := c.calls + 1 } := by
  obtain ⟨n, hn⟩ := h.target
  exact ⟨⟨n, hn⟩, h.fifo, h.roomy⟩

variable (htimely : paces.Timely msToTicks)
include htimely

theorem doubleBreak (h : Carries e c) (hrx : e.rx = []) : Carries { e with state := .idle }
    ⟨furiDoubleBreakImpl ((paces.rest c.calls).frame c.tr.frames []) c.tr,
      { c.target with state := .idle }, c.calls + 1⟩ := by
  obtain ⟨n, hn⟩ := h.target
  have hnone : c.tr.fifo = [] := List.map_eq_nil_iff.mp (h.fifo.trans hrx)
  have hgaps (j : ℕ) : ((paces.rest c.calls).frame c.tr.frames []).gaps j = [] := by
    simp [Pace.frame]
  have hquiet (j : ℕ) : (((paces.rest c.calls).frame c.tr.frames []).visits j).answers = [] := by
    simp [Pace.frame, Pace.visit]
  obtain ⟨hroomy, hfifo⟩ :=
    furiDoubleBreakImpl_exact hgaps hquiet (htimely.rest c.calls) h.roomy.1 hnone
  refine ⟨⟨n, ?_⟩, ?_, hroomy⟩
  · rw [hn]
    rfl
  · rw [hfifo]
    exact hrx.symm

theorem recv (h : Carries e c) (len : ℕ) :
    ((Bridge.iface P msToTicks freq paces).recv len UpdiLink.init.timeoutMs c).1 = e.rx.take len ∧
      Carries { e with rx := e.rx.drop len }
        ((Bridge.iface P msToTicks freq paces).recv len UpdiLink.init.timeoutMs c).2 := by
  have hquiet (j : ℕ) : ((paces.recv c.calls).visit [] j).answers = [] := rfl
  obtain ⟨hroomy, htake, hdrop⟩ :=
    furiRecvImpl_exact hquiet (htimely.recv c.calls) (htimely.inTime c.calls) h.roomy len
  refine ⟨?_, h.target, ?_, hroomy⟩
  · rw [← h.fifo, ← List.map_take, ← htake]
    rfl
  · dsimp only [Bridge.iface]
    rw [hdrop, List.map_drop, h.fifo]

theorem send (h : Carries e c) (hrx : e.rx = []) (hne : data ≠ []) (hlast : AnswersLast P e data)
    (hfits : data.length + (e.feed P data).rx.length ≤ updiRxStreamSize) :
    ((Bridge.iface P msToTicks freq paces).send data c).1 = true ∧
      Carries (e.feed P data) ((Bridge.iface P msToTicks freq paces).send data c).2 := by
  obtain ⟨n, hn⟩ := h.target
  have htarget : c.target = atTime n e := by rw [hn, ← hrx]
  have hfeed : c.target.feed P data = atTime n (e.feed P data) := by rw [htarget, feed_atTime]
  have hlast' : AnswersLast P c.target data := by
    intro l hl hproper
    rw [htarget, feed_atTime]
    exact hlast l hl hproper
  have hhear := hear_eq hne hlast'
  rw [hfeed] at hhear
  have hnone : c.tr.fifo = [] := List.map_eq_nil_iff.mp (h.fifo.trans hrx)
  dsimp only [Bridge.iface]
  rw [hhear]
  obtain ⟨hok, hroomy, hfifo⟩ :=
    @furiSendImpl_exact msToTicks _ _ (htimely.send c.calls) h.roomy.1 hnone _ _ hne
    hfits _ rfl
  exact ⟨hok, ⟨n, rfl⟩, hfifo, hroomy⟩

end Carries

end UpdiProgrammer.Transport
