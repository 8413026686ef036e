import Mathlib.Algebra.Group.Nat.Defs
import Mathlib.Logic.Function.Iterate
import UpdiProgrammer.Transport.Furi

namespace UpdiProgrammer.Transport.Deadline

section Loop

variable {σ β : Type} (getTick : σ → UInt32) (receive : (want timeout : ℕ) → σ → List β × σ)

/-- The loop of `furi_recv_impl`, whatever the ticks and the stream buffer do. -/
def recvLoop (deadline : UInt32) : (fuel want : ℕ) → σ → List β × σ
  | 0, _, s => ([], s)
  | fuel + 1, want, s =>
    if want = 0 then ([], s)
    else
      let now := getTick s
      if deadline ≤ now then receive want 0 s
      else
        let (bytes, s) := receive want (deadline - now).toNat s
        if bytes = [] then (bytes, s)
        else
          let (rest, s) := recvLoop deadline fuel (want - bytes.length) s
          (bytes ++ rest, s)

def recvImpl (len : ℕ) (ticks : UInt32) (s : σ) : List β × σ :=
  recvLoop getTick receive (getTick s + ticks) len len s

end Loop

section Visits

variable (visits : ℕ → Visit)

def visit (want _timeout : ℕ) (s : ℕ × TransportFuri) : List LineByte × ℕ × TransportFuri :=
  let (bytes, tr) := s.2.streamReceive (visits s.1) want
  (bytes, s.1 + 1, tr)

theorem recvLoop_visits (deadline : UInt32) (fuel i want : ℕ) (tr : TransportFuri) :
    tr.recvLoop visits deadline fuel i want =
      recvLoop (fun s ↦ (visits s.1).now) (visit visits) deadline fuel want (i, tr) := by
  induction fuel generalizing i want tr with
  | zero => rfl
  | succ fuel ih =>
    rw [TransportFuri.recvLoop, recvLoop]
    by_cases hwant : want = 0
    · rw [if_pos hwant, if_pos hwant]
    · rw [if_neg hwant, if_neg hwant]
      dsimp only [visit]
      by_cases hlate : deadline ≤ (visits i).now
      · rw [if_pos (.inl hlate), if_pos hlate]
      · rw [if_neg hlate]
        by_cases hnone : (tr.streamReceive (visits i) want).1 = []
        · rw [if_pos (.inr hnone), if_pos hnone]
        · rw [if_neg (not_or.mpr ⟨hlate, hnone⟩), if_neg hnone, ih]

theorem furiRecvImpl_visits (msToTicks : ℕ → UInt32) (i len timeoutMs : ℕ) (tr : TransportFuri) :
    tr.furiRecvImpl msToTicks visits i len timeoutMs = recvLoop (fun s ↦ (visits s.1).now)
      (visit visits) ((visits i).now + msToTicks timeoutMs) len len (i + 1, tr) :=
  recvLoop_visits visits _ len (i + 1) len tr

end Visits

section Contract

variable {σ β : Type} (tick : σ → ℕ) (arrived stream : σ → List β)

/-- What a receive from a stream buffer does to the ticks that went by, to the
bytes that came into the buffer and to those of them that are still in it. -/
structure Receives (receive : (want timeout : ℕ) → σ → List β × σ) : Prop where
  /-- The bytes are handed out in the order in which they came in. -/
  order : ∀ want timeout s, (receive want timeout s).1.length ≤ want ∧
    ∃ more, arrived (receive want timeout s).2 = arrived s ++ more ∧
      stream s ++ more = (receive want timeout s).1 ++ stream (receive want timeout s).2
  /-- What is there is handed out at once, and nothing is waited for without a timeout. -/
  atOnce : ∀ want timeout s, timeout = 0 ∨ stream s ≠ [] →
    (receive want timeout s).1 = (stream s).take want ∧ tick (receive want timeout s).2 = tick s
  waits : ∀ want timeout s, tick s ≤ tick (receive want timeout s).2 ∧
    tick (receive want timeout s).2 ≤ tick s + timeout
  /-- It returns nothing only after the whole timeout. -/
  silent : ∀ want timeout s, 0 < want → (receive want timeout s).1 = [] →
    tick (receive want timeout s).2 = tick s + timeout

/-- A receive of `len` bytes that gives up at its deadline, no sooner and no
later, and hands out the first bytes of the stream. -/
structure KeepsDeadline (len deadline : ℕ) (s : σ) (result : List β × σ) : Prop where
  length_le : result.1.length ≤ len
  short : result.1.length < len → deadline ≤ tick result.2
  inTime : tick result.2 ≤ deadline
  order : ∃ more, arrived result.2 = arrived s ++ more ∧
    stream s ++ more = result.1 ++ stream result.2

variable {tick arrived stream} {receive : (want timeout : ℕ) → σ → List β × σ}

theorem ticks_le_iff {t deadline : ℕ} (hlate : t ≤ deadline)
    (hwrap : deadline / 2 ^ 32 = t / 2 ^ 32) :
    (UInt32.ofNat deadline ≤ UInt32.ofNat t ↔ deadline = t) ∧
      (UInt32.ofNat deadline - UInt32.ofNat t).toNat = deadline - t := by
  have hd := Nat.div_add_mod deadline (2 ^ 32)
  have ht := Nat.div_add_mod t (2 ^ 32)
  rw [hwrap] at hd
  have hle : UInt32.ofNat t ≤ UInt32.ofNat deadline := by
    rw [UInt32.le_iff_toNat_le, UInt32.toNat_ofNat', UInt32.toNat_ofNat']
    omega
  rw [UInt32.toNat_sub_of_le _ _ hle, UInt32.le_iff_toNat_le, UInt32.toNat_ofNat',
    UInt32.toNat_ofNat']
  omega

theorem KeepsDeadline.nothing {deadline : ℕ} {s : σ} (hlate : tick s ≤ deadline) :
    KeepsDeadline tick arrived stream 0 deadline s ([], s) where
  length_le := Nat.le_refl 0
  short hlt := absurd hlt (Nat.not_lt_zero _)
  inTime := hlate
  order := ⟨[], (List.append_nil _).symm, List.append_nil _⟩

theorem KeepsDeadline.append (h : Receives tick arrived stream receive)
    {deadline want timeout : ℕ} {s : σ}
    {result : List β × σ}
      (hrest : KeepsDeadline tick arrived stream (want - (receive want timeout s).1.length) deadline
      (receive want timeout s).2 result) :
    KeepsDeadline tick arrived stream want deadline s ((receive want timeout s).1 ++ result.1,
      result.2) := by
  obtain ⟨hlen, more, harrived, hstream⟩ := h.order want timeout s
  obtain ⟨hlen', hshort, hin, more', harrived', hstream'⟩ := hrest
  refine ⟨?_, fun hlt ↦ hshort ?_, hin, more ++ more', ?_, ?_⟩
  · rw [List.length_append]
    omega
  · rw [List.length_append] at hlt
    omega
  · rw [harrived', harrived, List.append_assoc]
  · rw [← List.append_assoc, hstream, List.append_assoc, hstream', List.append_assoc]

theorem recvLoop_keeps (h : Receives tick arrived stream receive) {deadline : ℕ} {fuel want : ℕ}
    {s : σ} (hlate : tick s ≤ deadline) (hwrap : deadline / 2 ^ 32 = tick s / 2 ^ 32)
    (hfuel : want ≤ fuel) :
    KeepsDeadline tick arrived stream want deadline s
      (recvLoop (fun s ↦ UInt32.ofNat (tick s)) receive (UInt32.ofNat deadline) fuel want s) := by
  induction fuel generalizing want s with
  | zero =>
    obtain rfl : want = 0 := Nat.le_zero.mp hfuel
    exact .nothing hlate
  | succ fuel ih =>
    obtain ⟨hnow, hleft⟩ := ticks_le_iff hlate hwrap
    rw [recvLoop]
    by_cases hwant : want = 0
    · subst hwant
      exact .nothing hlate
    rw [if_neg hwant]
    dsimp only
    rw [hleft]
    by_cases hend : deadline = tick s
    · rw [if_pos (hnow.mpr hend)]
      obtain ⟨hlen, horder⟩ := h.order want 0 s
      obtain ⟨-, htick⟩ := h.atOnce want 0 s (.inl rfl)
      exact ⟨hlen, fun _ ↦ by omega, by omega, horder⟩
    rw [if_neg (hnow.not.mpr hend)]
    obtain ⟨hlen, horder⟩ := h.order want (deadline - tick s) s
    obtain ⟨hfrom, hto⟩ := h.waits want (deadline - tick s) s
    by_cases hnone : (receive want (deadline - tick s) s).1 = []
    · have hwaited := h.silent want (deadline - tick s) s (Nat.pos_of_ne_zero hwant) hnone
      have htick : tick (receive want (deadline - tick s) s).2 = deadline := by omega
      rw [if_pos hnone]
      exact ⟨hlen, fun _ ↦ Nat.le_of_eq htick.symm, Nat.le_of_eq htick, horder⟩
    · rw [if_neg hnone]
      have hpos := List.length_pos_iff.mpr hnone
      have hin : tick (receive want (deadline - tick s) s).2 ≤ deadline := by omega
      have hle := Nat.div_le_div_right (c := 2 ^ 32) hfrom
      have hge := Nat.div_le_div_right (c := 2 ^ 32) hin
      exact (ih hin (by omega) (by omega)).append h

theorem recvLoop_keeps_iff (h : Receives tick arrived stream receive) (len : ℕ) (ticks : UInt32)
    (s : σ) :
    KeepsDeadline tick arrived stream len (tick s + ticks.toNat) s
      (recvLoop (fun s ↦ UInt32.ofNat (tick s)) receive (UInt32.ofNat (tick s) + ticks) len len s) ↔
        tick s % 2 ^ 32 + ticks.toNat < 2 ^ 32 ∨ len ≤ (stream s).length := by
  have hdeadline : UInt32.ofNat (tick s) + ticks = UInt32.ofNat (tick s + ticks.toNat) := by
    rw [UInt32.ofNat_add, UInt32.ofNat_toNat]
  rw [hdeadline]
  by_cases hwrap : tick s % 2 ^ 32 + ticks.toNat < 2 ^ 32
  · exact iff_of_true (recvLoop_keeps h (Nat.le_add_right _ _) (by omega) (Nat.le_refl len))
      (.inl hwrap)
  -- the deadline has a smaller tick than the call, so that the loop ends in its first turn
  have hearly : UInt32.ofNat (tick s + ticks.toNat) ≤ UInt32.ofNat (tick s) := by
    have hlt := ticks.toNat_lt
    rw [UInt32.le_iff_toNat_le, UInt32.toNat_ofNat', UInt32.toNat_ofNat']
    omega
  rw [or_iff_right hwrap]
  cases len with
  | zero => exact iff_of_true (.nothing (Nat.le_add_right _ _)) (Nat.zero_le _)
  | succ n =>
    rw [recvLoop, if_neg n.succ_ne_zero]
    dsimp only
    rw [if_pos hearly]
    obtain ⟨hlen, horder⟩ := h.order (n + 1) 0 s
    obtain ⟨hbytes, htick⟩ := h.atOnce (n + 1) 0 s (.inl rfl)
    have htake : (receive (n + 1) 0 s).1.length = min (n + 1) (stream s).length := by
      rw [hbytes, List.length_take]
    constructor
    · intro hkeeps
      by_contra hfew
      have hend := hkeeps.short (by omega)
      have hpos : ticks.toNat ≠ 0 := by omega
      omega
    · intro henough
      exact ⟨hlen, fun hlt ↦ by omega, by omega, horder⟩

/-- The deadline is kept unless the ticks wrap around before it and there are too few
bytes at the call. -/
theorem recvImpl_keeps_iff (h : Receives tick arrived stream receive) (len : ℕ) (ticks : UInt32)
    (s : σ) :
    KeepsDeadline tick arrived stream len (tick s + ticks.toNat) s
      (recvImpl (fun s ↦ UInt32.ofNat (tick s)) receive len ticks s) ↔
        tick s % 2 ^ 32 + ticks.toNat < 2 ^ 32 ∨ len ≤ (stream s).length :=
  recvLoop_keeps_iff h len ticks s

end Contract

section Schedule

structure Buffer (β : Type) where
  tick : ℕ
  arrived : List β
  stream : List β

variable {β : Type} (arrivals : ℕ → List β)

def Buffer.next (s : Buffer β) : Buffer β :=
  ⟨s.tick + 1, s.arrived ++ arrivals (s.tick + 1), s.stream ++ arrivals (s.tick + 1)⟩

/-- Wait tick by tick until there is something or the timeout is over, and take what is there. -/
def bufferReceive (want : ℕ) : (timeout : ℕ) → Buffer β → List β × Buffer β
  | 0, s => (s.stream.take want, { s with stream := s.stream.drop want })
  | timeout + 1, s =>
    if s.stream = [] then bufferReceive want timeout (s.next arrivals)
    else (s.stream.take want, { s with stream := s.stream.drop want })

theorem bufferReceive_there {want timeout : ℕ} {s : Buffer β} (h : timeout = 0 ∨ s.stream ≠ []) :
    bufferReceive arrivals want timeout s =
      (s.stream.take want, { s with stream := s.stream.drop want }) := by
  cases timeout with
  | zero => rfl
  | succ timeout => exact if_neg (h.resolve_left timeout.succ_ne_zero)

theorem bufferReceive_wait {want timeout : ℕ} {s : Buffer β} (h : s.stream = []) :
    bufferReceive arrivals want (timeout + 1) s = bufferReceive arrivals want timeout
      (s.next arrivals) := if_pos h

theorem bufferReceive_receives :
    Receives Buffer.tick Buffer.arrived Buffer.stream (bufferReceive arrivals) where
  order want timeout s := by
    induction timeout generalizing s with
    | zero => exact ⟨List.length_take_le _ _, [], (List.append_nil _).symm, by simp [bufferReceive]⟩
    | succ timeout ih =>
      by_cases hs : s.stream = []
      · obtain ⟨hlen, more, harrived, hstream⟩ := ih (s.next arrivals)
        rw [bufferReceive_wait arrivals hs]
        refine ⟨hlen, arrivals (s.tick + 1) ++ more, ?_, ?_⟩
        · rw [harrived, Buffer.next, List.append_assoc]
        · rw [← hstream, Buffer.next, List.append_assoc]
      · rw [bufferReceive_there arrivals (.inr hs)]
        exact ⟨List.length_take_le _ _, [], (List.append_nil _).symm, by simp⟩
  atOnce want timeout s h := by
    rw [bufferReceive_there arrivals h]
    exact ⟨rfl, rfl⟩
  waits want timeout s := by
    induction timeout generalizing s with
    | zero => exact ⟨Nat.le_refl _, Nat.le_refl _⟩
    | succ timeout ih =>
      by_cases hs : s.stream = []
      · obtain ⟨hfrom, hto⟩ := ih (s.next arrivals)
        have hnext : (s.next arrivals).tick = s.tick + 1 := rfl
        rw [bufferReceive_wait arrivals hs]
        omega
      · rw [bufferReceive_there arrivals (.inr hs)]
        exact ⟨Nat.le_refl _, Nat.le_add_right _ _⟩
  silent want timeout s hwant hnone := by
    induction timeout generalizing s with
    | zero => rfl
    | succ timeout ih =>
      by_cases hs : s.stream = []
      · have hnext : (s.next arrivals).tick = s.tick + 1 := rfl
        rw [bufferReceive_wait arrivals hs] at hnone ⊢
        rw [ih _ hnone, hnext]
        omega
      · rw [bufferReceive_there arrivals (.inr hs)] at hnone
        have hlen := congrArg List.length hnone
        have hpos := List.length_pos_iff.mpr hs
        rw [List.length_take, List.length_nil] at hlen
        omega

/-- Nothing there at the call, four ticks before they wrap around, and a byte that
comes in two ticks later. -/
def lateByte : ℕ → List UInt8 := fun t ↦ if t = 2 ^ 32 - 2 then [0x55] else []

theorem keeps_late_byte :
    KeepsDeadline Buffer.tick Buffer.arrived Buffer.stream 1 (2 ^ 32 - 4 + 3) ⟨2 ^ 32 - 4, [], []⟩
    (recvImpl (fun s ↦ UInt32.ofNat s.tick) (bufferReceive lateByte) 1 3 ⟨2 ^ 32 - 4, [], []⟩) ↔
      (2 ^ 32 - 4) % 2 ^ 32 + 3 < 2 ^ 32 ∨ 1 ≤ 0 :=
  recvImpl_keeps_iff (bufferReceive_receives lateByte) 1 3 ⟨2 ^ 32 - 4, [], []⟩

/-- With a timeout of four ticks there is no waiting at all, and no byte. -/
theorem wrapped_deadline_missed :
    ¬∀ (arrivals : ℕ → List UInt8) (len : ℕ) (ticks : UInt32) (s : Buffer UInt8),
    ticks.toNat < 2 ^ 31 →
      KeepsDeadline Buffer.tick Buffer.arrived Buffer.stream len (s.tick + ticks.toNat) s
      (recvImpl (fun s ↦ UInt32.ofNat s.tick) (bufferReceive arrivals) len ticks s) := by
  intro h
  have hkeeps := h lateByte 1 4 ⟨2 ^ 32 - 4, [], []⟩ (by decide)
  exact absurd (hkeeps.short (by decide)) (by decide)

end Schedule

section Transport

variable (arrivals : ℕ → List Answer)

def onLine (t : ℕ) : List LineByte := (arrivals t).map Answer.onLine

/-- What comes in until a receive returns that finds the buffer as `s`. -/
def answersUntil : (timeout : ℕ) → Buffer LineByte → List Answer
  | 0, _ => []
  | timeout + 1, s =>
    if s.stream = [] then arrivals (s.tick + 1) ++ answersUntil timeout
      (s.next (onLine arrivals)) else []

def turnTimeout (deadline now : UInt32) : ℕ := if deadline ≤ now then 0 else (deadline - now).toNat

/-- The visit to the stream buffer that the schedule makes of a turn of the loop. -/
def turnVisit (deadline : UInt32) (s : Buffer LineByte) : Visit :=
  let answers := answersUntil arrivals (turnTimeout deadline (UInt32.ofNat s.tick)) s
  ⟨UInt32.ofNat s.tick, answers, answers.length, false⟩

def turn (deadline : UInt32) (turn : ℕ × Buffer LineByte) : ℕ × Buffer LineByte :=
  let r := bufferReceive (onLine arrivals) turn.1
    (turnTimeout deadline (UInt32.ofNat turn.2.tick)) turn.2
  (turn.1 - r.1.length, r.2)

def turnVisits (deadline : UInt32) (len : ℕ) (s : Buffer LineByte) (i : ℕ) : Visit :=
  turnVisit arrivals deadline ((turn arrivals deadline)^[i - 1] (len, s)).2

/-- The transport holds the bytes of the buffer, and none is on the line. -/
structure Held (s : Buffer LineByte) (tr : TransportFuri) : Prop where
  line : tr.line = []
  stream : tr.rxStream = s.stream
  fits : s.stream.length ≤ updiRxStreamSize

variable {arrivals} {s : Buffer LineByte} {tr : TransportFuri}

theorem answersUntil_fits (hroom : ∀ t, (arrivals t).length ≤ updiRxStreamSize) (timeout : ℕ)
    (s : Buffer LineByte) :
    (answersUntil arrivals timeout s).length ≤ updiRxStreamSize := by
  induction timeout generalizing s with
  | zero => exact Nat.zero_le _
  | succ timeout ih =>
    rw [answersUntil]
    split_ifs with hs
    · cases hcome : arrivals (s.tick + 1) with
      | nil => exact ih _
      | cons a rest =>
        have hsome : (s.next (onLine arrivals)).stream ≠ [] := by simp [Buffer.next, onLine, hcome]
        have hnone : answersUntil arrivals timeout (s.next (onLine arrivals)) = [] := by
          cases timeout with
          | zero => rfl
          | succ timeout => exact if_neg hsome
        rw [hnone, List.append_nil, ← hcome]
        exact hroom _
    · exact Nat.zero_le _

theorem answersUntil_of_ne_nil {timeout : ℕ} (h : s.stream ≠ []) :
    answersUntil arrivals timeout s = [] := by
  cases timeout with
  | zero => rfl
  | succ timeout => exact if_neg h

theorem bufferReceive_stream (want timeout : ℕ) (s : Buffer LineByte) :
    (bufferReceive (onLine arrivals) want timeout s).1 =
        (s.stream ++ (answersUntil arrivals timeout s).map Answer.onLine).take want ∧
      (bufferReceive (onLine arrivals) want timeout s).2.stream =
        (s.stream ++ (answersUntil arrivals timeout s).map Answer.onLine).drop want := by
  induction timeout generalizing s with
  | zero => simp [bufferReceive, answersUntil]
  | succ timeout ih =>
    by_cases hs : s.stream = []
    · have hnext :
          (s.next (onLine arrivals)).stream = (arrivals (s.tick + 1)).map Answer.onLine := by
        rw [Buffer.next, hs, List.nil_append, onLine]
      rw [bufferReceive_wait _ hs, answersUntil, if_pos hs, hs, List.nil_append,
        List.map_append, ← hnext]
      exact ih _
    · rw [bufferReceive_there _ (.inr hs), answersUntil_of_ne_nil hs, List.map_nil, List.append_nil]
      exact ⟨rfl, rfl⟩

theorem Held.receive (h : Held s tr) (hroom : ∀ t, (arrivals t).length ≤ updiRxStreamSize)
    (deadline : UInt32) (want : ℕ) :
    (tr.streamReceive (turnVisit arrivals deadline s) want).1 =
        (bufferReceive (onLine arrivals) want (turnTimeout deadline (UInt32.ofNat s.tick)) s).1 ∧
      Held (bufferReceive (onLine arrivals) want (turnTimeout deadline (UInt32.ofNat s.tick)) s).2
        (tr.streamReceive (turnVisit arrivals deadline s) want).2 := by
  obtain ⟨hbytes, hleft⟩ :=
    @bufferReceive_stream arrivals want (turnTimeout deadline (UInt32.ofNat s.tick)) s
  generalize hanswers : answersUntil arrivals (turnTimeout deadline (UInt32.ofNat s.tick)) s =
    answers at hbytes hleft
  have hvisit :
      turnVisit arrivals deadline s = ⟨UInt32.ofNat s.tick, answers, answers.length, false⟩ := by
    rw [turnVisit, hanswers]
  -- nothing comes in while there is something to receive
  have hfits : (s.stream ++ answers.map Answer.onLine).length ≤ updiRxStreamSize := by
    rw [List.length_append, List.length_map, ← hanswers]
    by_cases hs : s.stream = []
    · rw [hs]
      simpa using answersUntil_fits hroom _ s
    · rw [answersUntil_of_ne_nil hs]
      exact h.fits
  have hadvance (atLeast : ℕ) : tr.advance (turnVisit arrivals deadline s) atLeast =
      { tr with rxStream := s.stream ++ answers.map Answer.onLine } := by
    rw [hvisit]
    unfold TransportFuri.advance
    rw [if_neg Bool.false_ne_true, TransportFuri.comeIn_fits]
    · simp [h.line, h.stream, List.take_of_length_le]
    · simpa [h.line, h.stream] using hfits
  unfold TransportFuri.streamReceive
  simp only [hadvance]
  refine ⟨hbytes.symm, h.line, hleft.symm, ?_⟩
  rw [hleft, List.length_drop]
  omega

theorem recvLoop_schedule (hroom : ∀ t, (arrivals t).length ≤ updiRxStreamSize) (deadline : UInt32)
    (len fuel : ℕ) {s₀ : Buffer LineByte} {want i : ℕ} (h : Held s tr)
    (hturn : (turn arrivals deadline)^[i] (len, s₀) = (want, s)) :
    (recvLoop (fun c ↦ (turnVisits arrivals deadline len s₀ c.1).now)
        (visit (turnVisits arrivals deadline len s₀))
        deadline fuel want (i + 1, tr)).1 =
      (recvLoop (fun s ↦ UInt32.ofNat s.tick) (bufferReceive (onLine arrivals)) deadline
        fuel want s).1 ∧
    Held (recvLoop (fun s ↦ UInt32.ofNat s.tick) (bufferReceive (onLine arrivals)) deadline
      fuel want s).2
      (recvLoop (fun c ↦ (turnVisits arrivals deadline len s₀ c.1).now)
        (visit (turnVisits arrivals deadline len s₀))
        deadline fuel want (i + 1, tr)).2.2 := by
  induction fuel generalizing want i s tr with
  | zero => exact ⟨rfl, h⟩
  | succ fuel ih =>
    have hvisit : turnVisits arrivals deadline len s₀ (i + 1) = turnVisit arrivals deadline s := by
      rw [turnVisits, Nat.add_sub_cancel, hturn]
    obtain ⟨hbytes, hheld⟩ := h.receive hroom deadline want
    rw [recvLoop, recvLoop]
    by_cases hwant : want = 0
    · rw [if_pos hwant, if_pos hwant]
      exact ⟨rfl, h⟩
    rw [if_neg hwant, if_neg hwant]
    dsimp only [visit]
    rw [hvisit]
    have hnow : (turnVisit arrivals deadline s).now = UInt32.ofNat s.tick := rfl
    rw [hnow, hbytes]
    by_cases hlate : deadline ≤ UInt32.ofNat s.tick
    · rw [turnTimeout, if_pos hlate] at hheld ⊢
      rw [if_pos hlate, if_pos hlate]
      exact ⟨rfl, hheld⟩
    have hnext : (turn arrivals deadline)^[i + 1] (len, s₀) = turn arrivals deadline (want, s) := by
      rw [Function.iterate_succ_apply', hturn]
    rw [turn] at hnext
    rw [turnTimeout, if_neg hlate] at hheld hnext ⊢
    rw [if_neg hlate, if_neg hlate]
    by_cases hnone :
      (bufferReceive (onLine arrivals) want (deadline - UInt32.ofNat s.tick).toNat s).1 = []
    · rw [if_pos hnone, if_pos hnone]
      exact ⟨rfl, hheld⟩
    · rw [if_neg hnone, if_neg hnone]
      obtain ⟨hrest, hheld'⟩ := ih hheld hnext
      exact ⟨congrArg _ hrest, hheld'⟩

def callVisits (arrivals : ℕ → List Answer) (ticks : UInt32) (len : ℕ) (s : Buffer LineByte) :
    ℕ → Visit :=
  turnVisits arrivals (UInt32.ofNat s.tick + ticks) len s

theorem furiRecvImpl_keeps_iff (hroom : ∀ t, (arrivals t).length ≤ updiRxStreamSize) (h : Held s tr)
    (msToTicks : ℕ → UInt32) (len timeoutMs : ℕ) :
    ∃ bytes i tr' s', tr.furiRecvImpl msToTicks (callVisits arrivals (msToTicks timeoutMs) len s) 0
        len timeoutMs =
        (bytes, i, tr') ∧ Held s' tr' ∧
      (KeepsDeadline Buffer.tick Buffer.arrived Buffer.stream len
        (s.tick + (msToTicks timeoutMs).toNat) s (bytes, s') ↔
        s.tick % 2 ^ 32 + (msToTicks timeoutMs).toNat < 2 ^ 32 ∨ len ≤ s.stream.length) := by
  obtain ⟨hbytes, hheld⟩ :=
    recvLoop_schedule (i := 0) hroom (UInt32.ofNat s.tick + msToTicks timeoutMs) len len h rfl
  have hcall := furiRecvImpl_visits (callVisits arrivals (msToTicks timeoutMs) len s) msToTicks 0
    len timeoutMs tr
  refine ⟨_, _, _, _, hcall, hheld, ?_⟩
  refine Iff.trans (iff_of_eq (congrArg _ (Prod.ext hbytes rfl))) ?_
  exact recvLoop_keeps_iff (bufferReceive_receives (onLine arrivals)) len (msToTicks timeoutMs) s

end Transport

end UpdiProgrammer.Transport.Deadline
