import UpdiProgrammer.Transport.Furi
import UpdiProgrammer.Updi.Link

namespace UpdiProgrammer.Transport

open Updi

namespace TransportFuri

variable {msToTicks : ℕ → UInt32} {visits : ℕ → Visit} {tm : Timing} {tr tr' tr'' : TransportFuri}

/-- The bytes that are still to be received, in their order. -/
def fifo (tr : TransportFuri) : List LineByte := tr.rxStream ++ tr.line

theorem foldl_rxCallback {l : List LineByte} (h : (l.foldl rxCallback tr).overflowed = false) :
    tr.overflowed = false ∧ l.foldl rxCallback tr = { tr with rxStream := tr.rxStream ++ l } := by
  induction l generalizing tr with
  | nil => exact ⟨h, by rw [List.append_nil]; rfl⟩
  | cons x l ih =>
    obtain ⟨hroom, hrun⟩ := ih h
    rw [List.foldl_cons, hrun]
    unfold rxCallback at hroom ⊢
    split_ifs at hroom ⊢ with hfits
    · exact ⟨hroom, by rw [List.append_assoc]; rfl⟩

theorem comeIn_eq {n : ℕ} (h : (tr.comeIn n).overflowed = false) :
    tr.overflowed = false ∧
      tr.comeIn n = { tr with rxStream := tr.rxStream ++ tr.line.take n, line := tr.line.drop n } :=
  foldl_rxCallback h

theorem advance_eq {v : Visit} {atLeast : ℕ} (h : (tr.advance v atLeast).overflowed = false) :
    tr.overflowed = false ∧ ∃ m, (v.prompt = true → atLeast ≤ m) ∧ tr.advance v atLeast =
      { tr with
        rxStream := tr.rxStream ++ (tr.line ++ v.answers.map Answer.onLine).take m
        line := (tr.line ++ v.answers.map Answer.onLine).drop m } := by
  obtain ⟨hroom, hrun⟩ := comeIn_eq h
  refine ⟨hroom, _, fun hprompt ↦ ?_, hrun⟩
  rw [if_pos hprompt]
  exact Nat.le_max_left _ _

/-- What a part of a call takes from the line: `bytes` are the next ones, after
whatever the target adds in its visits. -/
structure Takes (visits : ℕ → Visit) (tr : TransportFuri) (bytes : List LineByte)
    (tr' : TransportFuri) : Prop where
  room : tr.overflowed = false
  frames : tr'.frames = tr.frames
  fifo : ∃ answers : List Answer, (∀ a ∈ answers, ∃ i, a ∈ (visits i).answers) ∧
    bytes ++ tr'.fifo = tr.fifo ++ answers.map Answer.onLine

theorem Takes.refl (h : tr.overflowed = false) : Takes visits tr [] tr :=
  ⟨h, rfl, [], List.forall_mem_nil _, (List.append_nil _).symm⟩

theorem Takes.trans {bytes bytes' : List LineByte} (h : Takes visits tr bytes tr')
    (h' : Takes visits tr' bytes' tr'') :
    Takes visits tr (bytes ++ bytes') tr'' := by
  obtain ⟨answers, hmem, hfifo⟩ := h.fifo
  obtain ⟨answers', hmem', hfifo'⟩ := h'.fifo
  refine ⟨h.room, h'.frames.trans h.frames, answers ++ answers', ?_, ?_⟩
  · intro a ha
    rcases List.mem_append.mp ha with ha | ha
    · exact hmem a ha
    · exact hmem' a ha
  · calc bytes ++ bytes' ++ tr''.fifo = bytes ++ (tr'.fifo ++ answers'.map Answer.onLine) := by
          rw [List.append_assoc, hfifo']
      _ = tr.fifo ++ answers.map Answer.onLine ++ answers'.map Answer.onLine := by
          rw [← List.append_assoc, hfifo]
      _ = tr.fifo ++ (answers ++ answers').map Answer.onLine := by
          rw [List.map_append, List.append_assoc]

theorem streamReceive_takes {i want : ℕ}
    (h : (tr.streamReceive (visits i) want).2.overflowed = false) :
    Takes visits tr (tr.streamReceive (visits i) want).1 (tr.streamReceive (visits i) want).2 := by
  obtain ⟨hroom, m, -, hrun⟩ := advance_eq h
  refine ⟨hroom, ?_, (visits i).answers, fun a ha ↦ ⟨i, ha⟩, ?_⟩
  · unfold streamReceive
    rw [hrun]
  · unfold streamReceive
    rw [hrun]
    unfold fifo
    dsimp only
    rw [← List.append_assoc, List.take_append_drop, List.append_assoc, List.take_append_drop,
      List.append_assoc]

theorem streamReceive_prompt {v : Visit} {want : ℕ} (hprompt : v.prompt = true) (hwant : 0 < want)
    (hfifo : tr.fifo ≠ []) (h : (tr.streamReceive v want).2.overflowed = false) :
    (tr.streamReceive v want).1 ≠ [] := by
  obtain ⟨-, m, hm, hrun⟩ := advance_eq h
  unfold streamReceive
  rw [hrun]
  intro hnone
  rcases List.take_eq_nil_iff.mp hnone with hz | hnil
  · omega
  · obtain ⟨hstream, htake⟩ := List.append_eq_nil_iff.mp hnil
    have hone := hm hprompt
    rw [if_pos hstream] at hone
    rcases List.take_eq_nil_iff.mp htake with hz | hline
    · omega
    · obtain ⟨hline, -⟩ := List.append_eq_nil_iff.mp hline
      exact hfifo (List.append_eq_nil_iff.mpr ⟨hstream, hline⟩)

theorem recvLoop_takes {deadline : UInt32} {fuel i want : ℕ}
    (h : (recvLoop visits deadline fuel i want tr).2.2.overflowed = false) :
    Takes visits tr (recvLoop visits deadline fuel i want tr).1
      (recvLoop visits deadline fuel i want tr).2.2 := by
  induction fuel generalizing i want tr with
  | zero => exact .refl h
  | succ fuel ih =>
    rw [recvLoop] at h ⊢
    by_cases hwant : want = 0
    · rw [if_pos hwant] at h ⊢
      exact .refl h
    · rw [if_neg hwant] at h ⊢
      dsimp only at h ⊢
      by_cases hlast : deadline ≤ (visits i).now ∨ (tr.streamReceive (visits i) want).1 = []
      · rw [if_pos hlast] at h ⊢
        exact streamReceive_takes h
      · rw [if_neg hlast] at h ⊢
        have hrest := ih h
        exact (streamReceive_takes hrest.room).trans hrest

theorem recvLoop_prompt {deadline : UInt32} {fuel i want : ℕ} (hprompt : (visits i).prompt = true)
    (hwant : 0 < want) (hfuel : 0 < fuel) (hfifo : tr.fifo ≠ [])
    (h : (recvLoop visits deadline fuel i want tr).2.2.overflowed = false) :
    (recvLoop visits deadline fuel i want tr).1 ≠ [] := by
  obtain ⟨fuel, rfl⟩ := Nat.exists_eq_succ_of_ne_zero (Nat.ne_of_gt hfuel)
  rw [recvLoop, if_neg (Nat.ne_of_gt hwant)] at h ⊢
  dsimp only at h ⊢
  by_cases hlast : deadline ≤ (visits i).now ∨ (tr.streamReceive (visits i) want).1 = []
  · rw [if_pos hlast] at h ⊢
    exact streamReceive_prompt hprompt hwant hfifo h
  · rw [if_neg hlast]
    exact fun hnil ↦ hlast (.inr (List.append_eq_nil_iff.mp hnil).1)

theorem discardLoop_takes {fuel i left : ℕ} (hfuel : left ≤ fuel)
    (h : (discardLoop msToTicks visits fuel i left tr).2.overflowed = false) :
    ∃ dropped, Takes visits tr dropped (discardLoop msToTicks visits fuel i left tr).2 ∧
      ((discardLoop msToTicks visits fuel i left tr).1 = true → dropped.length = left) ∧
      ((∀ j, (visits j).prompt = true) → left ≤ tr.fifo.length →
        (discardLoop msToTicks visits fuel i left tr).1 = true) := by
  induction fuel generalizing i left tr with
  | zero => exact ⟨[], .refl h, fun _ ↦ (Nat.le_zero.mp hfuel).symm, fun _ _ ↦ rfl⟩
  | succ fuel ih =>
    rw [discardLoop] at h ⊢
    by_cases hleft : left = 0
    · rw [if_pos hleft] at h ⊢
      exact ⟨[], .refl h, fun _ ↦ hleft.symm, fun _ _ ↦ rfl⟩
    · rw [if_neg hleft] at h ⊢
      dsimp only at h ⊢
      unfold furiRecvImpl at h ⊢
      generalize hrecv :
        recvLoop visits ((visits i).now + msToTicks updiEchoTimeoutMs) (min left 64) (i + 1)
        (min left 64) tr = r at h ⊢
      obtain ⟨scratch, j, tr₁⟩ := r
      have hle : scratch.length ≤ min left 64 := by
        have hloop :
          (recvLoop visits ((visits i).now + msToTicks updiEchoTimeoutMs) (min left 64) (i + 1)
          (min left 64) tr).1.length ≤ min left 64 := recvLoop_length
        rwa [hrecv] at hloop
      have htakes (hroom : tr₁.overflowed = false) : Takes visits tr scratch tr₁ := by
        have hloop :
          Takes visits tr
            (recvLoop visits ((visits i).now + msToTicks updiEchoTimeoutMs) (min left 64)
          (i + 1) (min left 64) tr).1 _ := recvLoop_takes (by rw [hrecv]; exact hroom)
        rwa [hrecv] at hloop
      dsimp only at h ⊢
      by_cases hnone : scratch = []
      · rw [if_pos hnone] at h ⊢
        refine ⟨scratch, htakes h, fun hok ↦ (by cases hok), fun hprompt hlen ↦ ?_⟩
        have hfifo : tr.fifo ≠ [] := List.ne_nil_of_length_pos (by omega)
        have hsome := recvLoop_prompt (hprompt (i + 1)) (by omega : 0 < min left 64)
          (by omega : 0 < min left 64) hfifo (by rw [hrecv]; exact h)
        rw [hrecv] at hsome
        exact absurd hnone hsome
      · rw [if_neg hnone] at h ⊢
        have hpos := List.length_pos_iff.mpr hnone
        obtain ⟨dropped, hrest, hcount, hok⟩ := ih (by omega) h
        have htake := htakes hrest.room
        refine ⟨scratch ++ dropped, htake.trans hrest, fun h ↦ ?_, fun hprompt hlen ↦
          hok hprompt ?_⟩
        · rw [List.length_append, hcount h]
          omega
        · obtain ⟨answers, -, hfifo⟩ := htake.fifo
          have hlength := congrArg List.length hfifo
          simp only [List.length_append, List.length_map] at hlength
          omega

variable {gaps : ℕ → List Answer} {frame i : ℕ} {data : List UInt8}

theorem le_wire_length : data.length ≤ (wire gaps frame i data).length := by
  induction data generalizing i with
  | nil => exact Nat.le_refl _
  | cons b rest ih =>
    have hrest := @ih (i + 1)
    rw [wire, List.length_append, List.length_cons, List.length_cons]
    omega

theorem wire_length_iff :
    (wire gaps frame i data).length = data.length ↔ ∀ j < data.length, gaps (i + j) = [] := by
  induction data generalizing i with
  | nil => exact ⟨fun _ j hj ↦ absurd hj (Nat.not_lt_zero j), fun _ ↦ rfl⟩
  | cons b rest ih =>
    have hle : rest.length ≤ (wire gaps frame (i + 1) rest).length := le_wire_length
    rw [wire, List.length_append, List.length_cons, List.length_cons, List.length_map]
    constructor
    · intro hlen j hj
      cases j with
      | zero => exact List.length_eq_zero_iff.mp (by omega : (gaps i).length = 0)
      | succ j =>
        have hrest : (wire gaps frame (i + 1) rest).length = rest.length := by omega
        have hnone := ih.mp hrest j (by omega)
        rwa [Nat.add_assoc, Nat.add_comm 1 j] at hnone
    · intro hnone
      have hfirst : gaps i = [] := hnone 0 (Nat.succ_pos _)
      have hrest : (wire gaps frame (i + 1) rest).length = rest.length := by
        refine ih.mpr fun j hj ↦ ?_
        have hj' := hnone (j + 1) (by omega)
        rwa [Nat.add_comm j 1, ← Nat.add_assoc] at hj'
      rw [hfirst, List.length_nil]
      omega

theorem wire_source {x : LineByte} (h : x ∈ wire gaps frame i data) :
    x.source = .echo frame ∨ ∃ j, ∃ a ∈ gaps j, x = a.onLine := by
  induction data generalizing i with
  | nil => cases h
  | cons b rest ih =>
    rw [wire] at h
    rcases List.mem_append.mp h with h | h
    · obtain ⟨a, ha, rfl⟩ := List.mem_map.mp h
      exact .inr ⟨i, a, ha, rfl⟩
    · rcases List.mem_cons.mp h with rfl | h
      · exact .inl rfl
      · exact ih h

theorem furiSendImpl_takes (hroom : (furiSendImpl msToTicks tm data tr).2.overflowed = false) :
    tr.overflowed = false ∧ (furiSendImpl msToTicks tm data tr).2.frames = tr.frames + 1 ∧
      ((∀ j, (tm.visits j).prompt = true) → (furiSendImpl msToTicks tm data tr).1 = true) ∧
      ∃ dropped, ∃ answers : List Answer, (∀ a ∈ answers, ∃ j, a ∈ (tm.visits j).answers) ∧
        ((furiSendImpl msToTicks tm data tr).1 = true → dropped.length = data.length) ∧
        dropped ++ (furiSendImpl msToTicks tm data tr).2.fifo =
          tr.fifo ++ wire tm.gaps (tr.frames + 1) 0 data ++ answers.map Answer.onLine := by
  obtain ⟨dropped, htake, hcount, hok⟩ := discardLoop_takes (Nat.le_refl _) hroom
  obtain ⟨answers, hmem, hfifo⟩ := htake.fifo
  have hsent : ({ tr with frames := tr.frames + 1 }.serialTx tm.gaps 0 data).fifo =
      tr.fifo ++ wire tm.gaps (tr.frames + 1) 0 data := (List.append_assoc _ _ _).symm
  refine ⟨htake.room, htake.frames, fun hprompt ↦ hok hprompt ?_, dropped, answers,
    hmem, hcount, ?_⟩
  · have hwire : data.length ≤ (wire tm.gaps (tr.frames + 1) 0 data).length := le_wire_length
    rw [hsent, List.length_append]
    omega
  · rw [← hsent]
    exact hfifo

/-- Bytes that answer the frame `n` or a later one. -/
def FreshFrom (n : ℕ) (l : List LineByte) : Prop := ∀ x ∈ l, ∃ k, x.source = .answer k ∧ n ≤ k

theorem freshFrom_answers {n : ℕ} {answers : List Answer} (h : ∀ a ∈ answers, n ≤ a.frame) :
    FreshFrom n (answers.map Answer.onLine) := by
  intro x hx
  obtain ⟨a, ha, rfl⟩ := List.mem_map.mp hx
  exact ⟨a.frame, rfl, h a ha⟩

theorem furiSendImpl_fresh (hprompt : ∀ j, (tm.visits j).prompt = true)
    (hroom : (furiSendImpl msToTicks tm data tr).2.overflowed = false) (hnone : tr.fifo = [])
    (hquiet : ∀ j < data.length, tm.gaps j = [])
    (hnew : ∀ j, ∀ a ∈ (tm.visits j).answers, a.frame = tr.frames + 1) :
    FreshFrom (tr.frames + 1) (furiSendImpl msToTicks tm data tr).2.fifo := by
  obtain ⟨-, -, hok, dropped, answers, hmem, hcount, hfifo⟩ := furiSendImpl_takes hroom
  have hwire : (wire tm.gaps (tr.frames + 1) 0 data).length = data.length :=
    wire_length_iff.mpr fun j hj ↦ by rw [Nat.zero_add]; exact hquiet j hj
  rw [hnone, List.nil_append] at hfifo
  obtain ⟨-, hrest⟩ := List.append_inj hfifo ((hcount (hok hprompt)).trans hwire.symm)
  rw [hrest]
  refine freshFrom_answers fun a ha ↦ ?_
  obtain ⟨j, hj⟩ := hmem a ha
  exact Nat.le_of_eq (hnew j a hj).symm

theorem send_fresh_iff (hprompt : ∀ j, (tm.visits j).prompt = true)
    (hroom : (furiSendImpl msToTicks tm data tr).2.overflowed = false)
    (hold : ∀ x ∈ tr.fifo, ∀ k, x.source = .answer k → k ≤ tr.frames)
    (hgaps : ∀ j, ∀ a ∈ tm.gaps j, a.frame ≤ tr.frames)
    (hnew : ∀ j, ∀ a ∈ (tm.visits j).answers, a.frame = tr.frames + 1) :
    FreshFrom (tr.frames + 1) (furiSendImpl msToTicks tm data tr).2.fifo ↔
      tr.fifo = [] ∧ ∀ j < data.length, tm.gaps j = [] := by
  obtain ⟨-, -, hok, dropped, answers, hmem, hcount, hfifo⟩ := furiSendImpl_takes hroom
  have hlen := hcount (hok hprompt)
  have hwire : data.length ≤ (wire tm.gaps (tr.frames + 1) 0 data).length := le_wire_length
  constructor
  · intro hfresh
    by_cases hexact : (tr.fifo ++ wire tm.gaps (tr.frames + 1) 0 data).length = data.length
    · rw [List.length_append] at hexact
      refine ⟨List.length_eq_zero_iff.mp (by omega), fun j hj ↦ ?_⟩
      have hnone := wire_length_iff.mp
        (by omega : (wire tm.gaps (tr.frames + 1) 0 data).length = data.length) j hj
      rwa [Nat.zero_add] at hnone
    · -- a byte that is not fresh is pushed out of the part that the send drops
      exfalso
      have hlong : dropped.length < (tr.fifo ++ wire tm.gaps (tr.frames + 1) 0 data).length := by
        rw [List.length_append] at hexact ⊢
        omega
      have hlast : (tr.fifo ++ wire tm.gaps (tr.frames + 1) 0 data)[dropped.length] ∈
          (furiSendImpl msToTicks tm data tr).2.fifo := by
        have hget : (dropped ++ (furiSendImpl msToTicks tm data tr).2.fifo)[dropped.length]? =
            some ((tr.fifo ++ wire tm.gaps (tr.frames + 1) 0 data)[dropped.length]) := by
          rw [hfifo, List.getElem?_append_left hlong, List.getElem?_eq_getElem hlong]
        rw [List.getElem?_append_right (Nat.le_refl _)] at hget
        exact List.mem_of_getElem? hget
      obtain ⟨k, hk, hle⟩ := hfresh _ hlast
      rcases List.mem_append.mp (List.getElem_mem hlong) with hin | hin
      · have hbefore := hold _ hin k hk
        omega
      · rcases wire_source hin with hecho | ⟨j, a, ha, heq⟩
        · rw [hecho] at hk
          cases hk
        · rw [heq] at hk
          cases hk
          have hbefore := hgaps j a ha
          omega
  · rintro ⟨hnone, hquiet⟩
    exact furiSendImpl_fresh hprompt hroom hnone hquiet hnew

theorem furiDoubleBreakImpl_wipes (hroom : (furiDoubleBreakImpl tm tr).overflowed = false) :
    tr.overflowed = false ∧ (furiDoubleBreakImpl tm tr).frames = tr.frames ∧
      ((tm.visits 2).prompt = true →
        ∀ x ∈ (furiDoubleBreakImpl tm tr).fifo, ∃ a ∈ (tm.visits 2).answers, x = a.onLine) := by
  let tr₁ := (tr.advance (tm.visits 0) 0).streamReset.serialTx tm.gaps 0 [0x00]
  let tr₂ := (tr₁.delay (tm.visits 1)).serialTx tm.gaps 1 [0x00]
  have hrun : furiDoubleBreakImpl tm tr = (tr₂.delay (tm.visits 2)).streamReset := rfl
  rw [hrun] at hroom ⊢
  have hroom₃ : (tr₂.advance (tm.visits 2) tr₂.line.length).overflowed = false := hroom
  obtain ⟨hroom₂, m, hm, hlast⟩ := advance_eq hroom₃
  have hroom₂ : (tr₁.advance (tm.visits 1) tr₁.line.length).overflowed = false := hroom₂
  obtain ⟨hroom₁, _, -, hmiddle⟩ := advance_eq hroom₂
  have hroom₁ : (tr.advance (tm.visits 0) 0).overflowed = false := hroom₁
  obtain ⟨hroom₀, _, -, hfirst⟩ := advance_eq hroom₁
  refine ⟨hroom₀, ?_, fun hprompt x hx ↦ ?_⟩
  · calc (tr₂.delay (tm.visits 2)).frames = (tr₁.delay (tm.visits 1)).frames := by
          rw [delay, hlast]
          rfl
      _ = (tr.advance (tm.visits 0) 0).frames := by rw [delay, hmiddle]; rfl
      _ = tr.frames := by rw [hfirst]
  · have hline : x ∈ ((tm.visits 2).answers.map Answer.onLine).drop (m - tr₂.line.length) := by
      unfold delay at hx
      rw [hlast] at hx
      have hdrop : x ∈ (tr₂.line ++ (tm.visits 2).answers.map Answer.onLine).drop m := hx
      rwa [List.drop_append, List.drop_eq_nil_of_le (hm hprompt), List.nil_append] at hdrop
    obtain ⟨a, ha, rfl⟩ := List.mem_map.mp (List.mem_of_mem_drop hline)
    exact ⟨a, ha, rfl⟩

end TransportFuri

open TransportFuri

inductive Call
  | send (data : List UInt8)
  | recv (len timeoutMs : ℕ)
  | doubleBreak
  deriving DecidableEq, Repr

/-- The transport between two calls, with the last frame whose send returned true. -/
structure Bus where
  tr : TransportFuri
  confirmed : ℕ

variable (msToTicks : ℕ → UInt32)

def Call.run (c : Call) (tm : Timing) (s : Bus) : Bus :=
  match c with
  | .send data =>
    let (ok, tr) := furiSendImpl msToTicks tm data s.tr
    ⟨tr, if ok then tr.frames else s.confirmed⟩
  | .recv len timeoutMs =>
    ⟨(furiRecvImpl msToTicks tm.visits 0 len timeoutMs s.tr).2.2, s.confirmed⟩
  | .doubleBreak => ⟨furiDoubleBreakImpl tm s.tr, s.confirmed⟩

def runCalls (calls : List (Call × Timing)) (s : Bus) : Bus :=
  calls.foldl (fun s c ↦ c.1.run msToTicks c.2 s) s

/-- The echo of what a call transmits arrives within the call's timeouts. -/
def EchoInTime : Call × Timing → Prop
  | (.send _, tm) => ∀ j, (tm.visits j).prompt = true
  | (.recv _ _, _) => True
  | (.doubleBreak, tm) => (tm.visits 2).prompt = true

/-- No answer is late for a call: when a frame goes out all earlier answers have
been received, and what the target sends afterwards answers that frame. -/
def Punctual (tr : TransportFuri) : Call × Timing → Prop
  | (.send data, tm) => tr.fifo = [] ∧ (∀ j < data.length, tm.gaps j = []) ∧
      ∀ j, ∀ a ∈ (tm.visits j).answers, a.frame = tr.frames + 1
  | (.recv _ _, tm) => ∀ j, ∀ a ∈ (tm.visits j).answers, a.frame = tr.frames
  | (.doubleBreak, tm) => ∀ a ∈ (tm.visits 2).answers, a.frame = tr.frames

/-- Every call of a run is punctual. -/
def PunctualRun : Bus → List (Call × Timing) → Prop
  | _, [] => True
  | s, c :: calls => Punctual s.tr c ∧ PunctualRun (c.1.run msToTicks c.2 s) calls

/-- Between two punctual calls everything that is still to be received is fresh. -/
structure Settled (s : Bus) : Prop where
  fresh : FreshFrom s.confirmed s.tr.fifo
  confirmed : s.confirmed ≤ s.tr.frames

variable {msToTicks} {s : Bus} {tm : Timing}

theorem run_send {data : List UInt8}
    (hroom : ((Call.send data).run msToTicks tm s).tr.overflowed = false) :
    s.tr.overflowed = false ∧ (EchoInTime (.send data, tm) → Punctual s.tr (.send data, tm) →
      Settled ((Call.send data).run msToTicks tm s)) := by
  obtain ⟨hfits, hframes, hok, -⟩ := furiSendImpl_takes hroom
  refine ⟨hfits, fun hprompt ⟨hnone, hquiet, hnew⟩ ↦ ?_⟩
  have hfresh : FreshFrom (s.tr.frames + 1) (furiSendImpl msToTicks tm data s.tr).2.fifo := by
    refine furiSendImpl_fresh hprompt hroom hnone hquiet hnew
  have hconfirmed : ((Call.send data).run msToTicks tm s).confirmed = s.tr.frames + 1 :=
    (if_pos (hok hprompt)).trans hframes
  exact ⟨hconfirmed ▸ hfresh, by rw [hconfirmed]; exact Nat.le_of_eq hframes.symm⟩

theorem run_recv {len timeoutMs : ℕ}
    (hroom : ((Call.recv len timeoutMs).run msToTicks tm s).tr.overflowed = false) :
    s.tr.overflowed = false ∧ (Settled s → Punctual s.tr (.recv len timeoutMs, tm) →
      Settled ((Call.recv len timeoutMs).run msToTicks tm s) ∧
        FreshFrom s.confirmed (furiRecvImpl msToTicks tm.visits 0 len timeoutMs s.tr).1) := by
  have htake := recvLoop_takes hroom
  refine ⟨htake.room, fun hs hnew ↦ ?_⟩
  obtain ⟨answers, hmem, hfifo⟩ := htake.fifo
  have hanswers : FreshFrom s.confirmed (answers.map Answer.onLine) := by
    refine freshFrom_answers fun a ha ↦ ?_
    obtain ⟨j, hj⟩ := hmem a ha
    rw [hnew j a hj]
    exact hs.confirmed
  have hall : FreshFrom s.confirmed (s.tr.fifo ++ answers.map Answer.onLine) := by
    intro x hx
    rcases List.mem_append.mp hx with hx | hx
    · exact hs.fresh x hx
    · exact hanswers x hx
  rw [← hfifo] at hall
  refine ⟨⟨fun x hx ↦ hall x (List.mem_append_right _ hx), ?_⟩,
    fun x hx ↦ hall x (List.mem_append_left _ hx)⟩
  exact Nat.le_trans hs.confirmed (Nat.le_of_eq htake.frames.symm)

theorem run_doubleBreak (hroom : (Call.doubleBreak.run msToTicks tm s).tr.overflowed = false) :
    s.tr.overflowed = false ∧
      (Settled s → EchoInTime (.doubleBreak, tm) → Punctual s.tr (.doubleBreak, tm) →
      Settled (Call.doubleBreak.run msToTicks tm s)) := by
  obtain ⟨hfits, hframes, hwipes⟩ := furiDoubleBreakImpl_wipes hroom
  refine ⟨hfits, fun hs hprompt hnew ↦
    ⟨fun x hx ↦ ?_, Nat.le_trans hs.confirmed (Nat.le_of_eq hframes.symm)⟩⟩
  obtain ⟨a, ha, rfl⟩ := hwipes hprompt x hx
  exact ⟨a.frame, rfl, Nat.le_trans hs.confirmed (Nat.le_of_eq (hnew a ha).symm)⟩

theorem run_settled (c : Call) (hroom : (c.run msToTicks tm s).tr.overflowed = false) :
    s.tr.overflowed = false ∧ (Settled s → EchoInTime (c, tm) → Punctual s.tr (c, tm) →
      Settled (c.run msToTicks tm s)) := by
  cases c with
  | send data => exact ⟨(run_send hroom).1, fun _ ↦ (run_send hroom).2⟩
  | recv len timeoutMs => exact ⟨(run_recv hroom).1, fun hs _ hnew ↦ ((run_recv hroom).2 hs hnew).1⟩
  | doubleBreak => exact run_doubleBreak hroom

variable {calls : List (Call × Timing)}

theorem runCalls_append (calls calls' : List (Call × Timing)) :
    runCalls msToTicks (calls ++ calls') s = runCalls msToTicks calls'
      (runCalls msToTicks calls s) := List.foldl_append

theorem runCalls_room (h : (runCalls msToTicks calls s).tr.overflowed = false) :
    s.tr.overflowed = false := by
  induction calls generalizing s with
  | nil => exact h
  | cons c calls ih => exact (run_settled c.1 (ih h)).1

theorem punctualRun_append {calls' : List (Call × Timing)} :
    PunctualRun msToTicks s (calls ++ calls') ↔
      PunctualRun msToTicks s calls ∧
        PunctualRun msToTicks (runCalls msToTicks calls s) calls' := by
  induction calls generalizing s with
  | nil => exact iff_of_eq (true_and _).symm
  | cons c calls ih => exact (and_congr_right fun _ ↦ ih).trans and_assoc.symm

theorem runCalls_settled (hs : Settled s)
    (hroom : (runCalls msToTicks calls s).tr.overflowed = false) (htime : ∀ c ∈ calls, EchoInTime c)
    (hpunctual : PunctualRun msToTicks s calls) :
    Settled (runCalls msToTicks calls s) := by
  induction calls generalizing s with
  | nil => exact hs
  | cons c calls ih =>
    obtain ⟨c, tm⟩ := c
    have hstep := run_settled c (runCalls_room (s := c.run msToTicks tm s) hroom)
    obtain ⟨hc, hrest⟩ := hpunctual
    refine ih (hstep.2 hs (htime _ List.mem_cons_self) hc) hroom ?_ hrest
    exact fun c' hc' ↦ htime c' (List.mem_cons_of_mem _ hc')

/-- In a run of punctual calls every byte that a receive returns is the target's,
in answer to the last frame whose send returned true or to a later one. -/
theorem recv_fresh (msToTicks : ℕ → UInt32) (calls : List (Call × Timing))
    (htime : ∀ c ∈ calls, EchoInTime c)
    (hroom : (runCalls msToTicks calls ⟨.alloc, 0⟩).tr.overflowed = false)
    (hpunctual : PunctualRun msToTicks ⟨.alloc, 0⟩ calls) :
    ∀ before len timeoutMs tm after, calls = before ++ (.recv len timeoutMs, tm) :: after →
      ∀ x ∈ (furiRecvImpl msToTicks tm.visits 0 len timeoutMs (runCalls msToTicks before ⟨.alloc,
        0⟩).tr).1,
        ∃ k, x.source = .answer k ∧ (runCalls msToTicks before ⟨.alloc, 0⟩).confirmed ≤ k := by
  rintro before len timeoutMs tm after rfl
  obtain ⟨hbefore, hcall, -⟩ := punctualRun_append.mp hpunctual
  rw [runCalls_append] at hroom
  have hrecv := run_recv (runCalls_room (s := (Call.recv len timeoutMs).run msToTicks tm _) hroom)
  have hsettled : Settled (runCalls msToTicks before ⟨.alloc, 0⟩) :=
    runCalls_settled ⟨List.forall_mem_nil _, Nat.le_refl _⟩ hrecv.1
      (fun c hc ↦ htime c (List.mem_append_left _ hc)) hbefore
  exact (hrecv.2 hsettled hcall).2

def echoing : Timing := ⟨fun _ ↦ [], fun _ ↦ ⟨0, [], 1, true⟩⟩

/-- The target answers a frame with one byte, at once. -/
def answering (frame : ℕ) (value : UInt8) : Timing :=
  ⟨fun _ ↦ [], fun j ↦ ⟨0, if j = 1 then [⟨frame, value⟩] else [], 1, true⟩⟩

def mute : Timing := ⟨fun _ ↦ [], fun _ ↦ ⟨0, [], 0, false⟩⟩

def twoReads : List (Call × Timing) :=
  [(.send [0x55, 0x80], echoing), (.recv 1 300, answering 1 0x30), (.doubleBreak, echoing),
    (.send [0x55, 0x8B], echoing), (.recv 1 300, answering 2 0x82)]

theorem second_read_fresh :
    (furiRecvImpl UInt32.ofNat (answering 2 0x82).visits 0 1 300
        (runCalls UInt32.ofNat (twoReads.take 4) ⟨.alloc, 0⟩).tr).1 = [⟨0x82, .answer 2⟩] ∧
      ∃ k, Source.answer 2 = .answer k ∧
        (runCalls UInt32.ofNat (twoReads.take 4) ⟨.alloc, 0⟩).confirmed ≤ k := by
  have hquiet {frame : ℕ} (j : ℕ) : ∀ a ∈ (echoing.visits j).answers, a.frame = frame :=
    List.forall_mem_nil _
  have hanswer {frame : ℕ} {value : UInt8} (j : ℕ) :
      ∀ a ∈ ((answering frame value).visits j).answers, a.frame = frame := by
    change ∀ a ∈ if j = 1 then [(⟨frame, value⟩ : Answer)] else [], a.frame = frame
    split_ifs
    · exact List.forall_mem_singleton.mpr rfl
    · exact List.forall_mem_nil _
  have hprompt (j : ℕ) : (echoing.visits j).prompt = true := rfl
  have hread : (furiRecvImpl UInt32.ofNat (answering 2 0x82).visits 0 1 300
      (runCalls UInt32.ofNat (twoReads.take 4) ⟨.alloc, 0⟩).tr).1 =
        [⟨0x82, .answer 2⟩] := by decide +kernel
  refine ⟨hread, recv_fresh UInt32.ofNat twoReads ?_ (by decide +kernel) ?_ (twoReads.take 4) 1 300
    (answering 2 0x82) [] rfl ⟨0x82, .answer 2⟩ ?_⟩
  · simp [twoReads, EchoInTime, hprompt]
  · refine ⟨⟨rfl, fun _ _ ↦ rfl, hquiet⟩, hanswer, hquiet 2,
      ⟨rfl, fun _ _ ↦ rfl, hquiet⟩, ?_, trivial⟩
    have hframes : (runCalls UInt32.ofNat (twoReads.take 4) ⟨.alloc, 0⟩).tr.frames =
        2 := by decide +kernel
    exact fun j a ha ↦ (hanswer j a ha).trans hframes.symm
  · rw [hread]
    exact List.mem_singleton.mpr rfl

/-- The answer to the first LDCS arrives after the receive has given up, ahead
of the echo of the second. -/
def lateAnswer : List (Call × Timing) :=
  [(.send [0x55, 0x80], echoing), (.recv 1 300, mute),
    (.send [0x55, 0x8B], ⟨fun j ↦ if j = 0 then [⟨1, 0x30⟩] else [], echoing.visits⟩)]

/-- The seam with those timings, and the status in answer to the second LDCS. -/
def lateLink (status : UInt8) : UpdiTransport (TransportFuri × ℕ) :=
  iface UInt32.ofNat 1000 fun n ↦ ((lateAnswer.map Prod.snd)[n]?).getD (answering 2 status)

/-- Then the receive after the second gets a byte of its echo, and the link
layer takes that for the status. -/
theorem echo_received_after_late_answer :
    (∀ c ∈ lateAnswer, EchoInTime c) ∧
      (runCalls UInt32.ofNat lateAnswer ⟨.alloc, 0⟩).tr.overflowed = false ∧
      (runCalls UInt32.ofNat lateAnswer ⟨.alloc, 0⟩).confirmed = 2 ∧
      (furiRecvImpl UInt32.ofNat (answering 2 0x82).visits 0 1 300
        (runCalls UInt32.ofNat lateAnswer ⟨.alloc, 0⟩).tr).1 = [⟨0x8B, .echo 2⟩] ∧
      (UpdiLink.ldcs (lateLink 0x82) asiSysStatus
        (UpdiLink.ldcs (lateLink 0x82) csStatusa ⟨UpdiLink.init, (.alloc, 0)⟩).2).1 = .ok 0x8B := by
  refine ⟨?_, by decide +kernel, by decide +kernel, by decide +kernel, by decide +kernel⟩
  have hprompt (j : ℕ) : (echoing.visits j).prompt = true := rfl
  simp [lateAnswer, EchoInTime, hprompt]

end UpdiProgrammer.Transport
