import UpdiProgrammer.HostTest.Programming

namespace UpdiProgrammer.HostTest

open Updi UpdiLink UpdiNvm UpdiSession Library.Program UpdiEmu

/-- What the host reads and what the target answers meanwhile, from the
first look at the system status to programming mode. -/
inductive Entering (m : EmuMem) : List UInt8 → List UInt8 → EmuMem → Prop
  | already {x : UInt8} (hx : x &&& sysStatusNvmprog ≠ 0) : Entering m [x] [m.cs asiSysStatus] m
  | keyed {x y p w : UInt8} {polls : List UInt8} (hx : x &&& sysStatusNvmprog = 0)
      (hy : y &&& keyStatusNvmprog ≠ 0) (hpolls : ∀ b ∈ polls, b &&& sysStatusLockstatus ≠ 0)
      (hlen : polls.length < 100) (hp : p &&& sysStatusLockstatus = 0)
        (hw : w &&& sysStatusNvmprog ≠ 0) :
      Entering m (x :: y :: (polls ++ [p, w]))
        (m.cs asiSysStatus :: m.keyed.cs asiKeyStatus ::
          List.replicate (polls.length + 2) (m.unlocked.cs asiSysStatus)) m.unlocked

/-- The same for a whole connect that identifies the target. -/
inductive Dialogue (m : EmuMem) : List UInt8 → List UInt8 → Prop
  | mk {sib reads answers : List UInt8} {m' : EmuMem} (hlen : sib.length = 16)
      (hsib : sibInfo sib = sibInfo (sibBytes m 16)) (henter : Entering m reads answers m') :
      Dialogue m (sib ++ reads ++ phyAck :: cells m sigrowDefaultAddress 3)
        (sibBytes m 16 ++ answers ++ phyAck :: cells m sigrowDefaultAddress 3)

/-- With the answers `q` still unread, the host reads what it would have to
read from a target that is in step. -/
def Replays (m : EmuMem) (q : List UInt8) : Prop :=
  ∃ reads answers, Dialogue m reads answers ∧ reads <+: q ++ answers

theorem Entering.length_eq {m m' : EmuMem} {reads answers : List UInt8}
    (h : Entering m reads answers m') : reads.length = answers.length := by
  cases h with
  | already hx => rfl
  | keyed hx hy hpolls hlen hp hw => simp

theorem Entering.sameStore {m m' : EmuMem} {reads answers : List UInt8}
    (h : Entering m reads answers m') : m.SameStore m' := by
  cases h with
  | already hx => exact .refl m
  | keyed hx hy hpolls hlen hp hw => exact m.sameStore_unlocked

theorem split_reads {a b c d : List UInt8} (h : a ++ b = c ++ d) (hlen : a.length ≤ c.length) :
    ∃ q, c = a ++ q ∧ q ++ d = b := by
  obtain ⟨q, rfl⟩ := List.prefix_of_prefix_length_le (List.prefix_append a b)
    (h ▸ List.prefix_append c d) hlen
  rw [List.append_assoc] at h
  exact ⟨q, rfl, (List.append_cancel_left h).symm⟩

theorem reads_append {q q₁ q₂ q₃ r₁ r₂ r₃ a₁ a₂ a₃ : List UInt8} (h₁ : q ++ a₁ = r₁ ++ q₁)
    (h₂ : q₁ ++ a₂ = r₂ ++ q₂) (h₃ : q₂ ++ a₃ = r₃ ++ q₃) :
    r₁ ++ r₂ ++ r₃ ++ q₃ = q ++ (a₁ ++ a₂ ++ a₃) := by
  calc r₁ ++ r₂ ++ r₃ ++ q₃ = r₁ ++ (r₂ ++ q₂) ++ a₃ := by
        rw [List.append_assoc, ← h₃]
        simp only [List.append_assoc]
    _ = (q ++ a₁) ++ a₂ ++ a₃ := by
        rw [← h₂, h₁]
        simp only [List.append_assoc]
    _ = q ++ (a₁ ++ a₂ ++ a₃) := by simp only [List.append_assoc]

theorem reads_split {q q₃ r₁ r₂ r₃ a₁ a₂ a₃ : List UInt8}
    (h : r₁ ++ r₂ ++ r₃ ++ q₃ = q ++ (a₁ ++ a₂ ++ a₃)) (hlen₁ : r₁.length = a₁.length)
    (hlen₂ : r₂.length = a₂.length) :
    ∃ q₁ q₂, q ++ a₁ = r₁ ++ q₁ ∧ q₁ ++ a₂ = r₂ ++ q₂ ∧ q₂ ++ a₃ = r₃ ++ q₃ := by
  have hfirst : r₁ ++ (r₂ ++ (r₃ ++ q₃)) = (q ++ a₁) ++ (a₂ ++ a₃) := by
    simpa only [List.append_assoc] using h
  obtain ⟨q₁, hq₁, hrest⟩ := split_reads hfirst (by rw [List.length_append]; omega)
  have hsecond : r₂ ++ (r₃ ++ q₃) = (q₁ ++ a₂) ++ a₃ := by
    rw [List.append_assoc]
    exact hrest.symm
  obtain ⟨q₂, hq₂, hlast⟩ := split_reads hsecond (by rw [List.length_append]; omega)
  exact ⟨q₁, q₂, hq₁, hq₂, hlast⟩

theorem exists_cons (q : List UInt8) (x : UInt8) : ∃ b q', q ++ [x] = b :: q' := by
  cases q with
  | nil => exact ⟨x, [], rfl⟩
  | cons b q => exact ⟨b, q ++ [x], rfl⟩

theorem length_cons_eq {q q' : List UInt8} {x b : UInt8} (h : q ++ [x] = b :: q') :
    q'.length = q.length := by
  have hlen := congrArg List.length h
  simp only [List.length_append, List.length_cons, List.length_nil] at hlen
  omega

namespace UpdiEmu

theorem rxPush_nowMs (e : UpdiEmu) (b : UInt8) : (e.rxPush b).nowMs = e.nowMs := by
  rw [rxPush_eq]

theorem ldLoop_nowMs (n : ℕ) (e : UpdiEmu) : (ldLoop n e).nowMs = e.nowMs := by
  induction n generalizing e with
  | zero => rfl
  | succ n ih =>
    rw [ldLoop, ih]
    exact rxPush_nowMs e _

theorem feedOpcode_nowMs (e : UpdiEmu) (op : UInt8) : (e.feedOpcode op).nowMs = e.nowMs := by
  unfold feedOpcode
  simp only [rxPush_eq, rxPushAll_eq]
  split
  all_goals try split_ifs
  all_goals first | rfl | exact ldLoop_nowMs _ _

theorem feedByte_nowMs (P : AckPolicy) (e : UpdiEmu) (b : UInt8) :
    (e.feedByte P b).nowMs = e.nowMs := by
  unfold feedByte
  simp only [pushAck_eq, rxPush_eq, rxPushAll_eq]
  split
  all_goals try split_ifs
  all_goals first | rfl | exact feedOpcode_nowMs e b

theorem feed_nowMs (P : AckPolicy) (l : List UInt8) (e : UpdiEmu) :
    (e.feed P l).nowMs = e.nowMs := by
  induction l generalizing e with
  | nil => rfl
  | cons b l ih => rw [feed_cons, ih, feedByte_nowMs]

/-- The same with the clock. -/
structure Timed (m : EmuMem) (q : List UInt8) (r : ℕ) (now : UInt32) (e : UpdiEmu) : Prop
    extends At m q r e where
  nowMs : e.nowMs = now

end UpdiEmu

variable {P : AckPolicy} {a24 : Bool} {m m' : EmuMem} {q q' : List UInt8} {r : ℕ}
  {s : LinkState UpdiEmu}

theorem ldcs_backlog (h : Linked a24 (At m q r) s) (hcap : q.length + 1 < emuRxCap) {a b : UInt8}
    (hq : q ++ [m.cs (a &&& 0x0F)] = b :: q') :
    Returns (ldcs (emuTransport P) a) s b (Linked a24 (At m q' r)) := by
  have hpush : enqueue q (m.cs (a &&& 0x0F)) = b :: q' := by
    rw [← hq]
    exact if_neg (by omega)
  refine (send_returns (fun e he ↦ he.ldcs a) h).bind fun s h ↦ ?_
  rw [hpush] at h
  exact recvByte_returns drains_at h

theorem drains_timed {now : UInt32} : Drains fun q ↦ Timed m q r now :=
  fun _ _ h ↦ ⟨h.rx, fun _ ↦ ⟨⟨h.mem, h.state, rfl, h.repeatNext⟩, h.nowMs⟩⟩

theorem poll_backlog {now : UInt32} (h : Linked a24 (Timed m q r now) s)
    (hcap : q.length + 1 < emuRxCap) {b : UInt8} (hq : q ++ [m.cs asiSysStatus] = b :: q') :
    Returns (ldcs (emuTransport P) asiSysStatus) s b (Linked a24 (Timed m q' r now)) := by
  have hpush : enqueue q (m.cs asiSysStatus) = b :: q' := by
    rw [← hq]
    exact if_neg (by omega)
  have hsend : ∀ e, Timed m q r now e →
      Timed m (b :: q') r now (e.feed P [phySync, updiLdcs ||| (asiSysStatus &&& 0x0F)]) := by
    intro e he
    have hat := he.toAt.ldcs (P := P) asiSysStatus
    have hcs : enqueue q (m.cs (asiSysStatus &&& 0x0F)) = b :: q' := hpush
    rw [hcs] at hat
    exact ⟨hat, (feed_nowMs ..).trans he.nowMs⟩
  exact (send_returns hsend h).bind fun s h ↦ recvByte_returns drains_timed h

theorem millis_timed {now : UInt32} (h : Linked a24 (Timed m q r now) s) :
    Returns (millis (emuTransport P)) s (now + 1) (Linked a24 (Timed m q r (now + 1))) := by
  refine ⟨⟨s.link, { s.ctx with nowMs := s.ctx.nowMs + 1 }⟩, ?_, h.addr24,
    ⟨h.target.mem, h.target.state, h.target.rx, h.target.repeatNext⟩, ?_⟩
  · rw [← h.target.nowMs]
    rfl
  · exact congrArg (· + 1) h.target.nowMs

theorem elapsed (start : UInt32) (k : ℕ) :
    start + UInt32.ofNat k + 1 - start = UInt32.ofNat (k + 1) := by
  rw [UInt32.ofNat_add, UInt32.add_assoc, UInt32.add_comm start, UInt32.add_sub_cancel]
  rfl

theorem not_timeout {k : ℕ} (hk : k + 1 < 100) : ¬(100 : UInt32) ≤ UInt32.ofNat (k + 1) := by
  rw [UInt32.le_iff_toNat_le, UInt32.toNat_ofNat']
  have h100 : (100 : UInt32).toNat = 100 := rfl
  omega

theorem waitUnlockedLoop_backlog {p : UInt8} {polls : List UInt8} {start : UInt32} {k iters : ℕ}
    (hpolls : ∀ b ∈ polls, b &&& sysStatusLockstatus ≠ 0) (hp : p &&& sysStatusLockstatus = 0)
    (hlen : k + polls.length < 100) (hiters : polls.length < iters)
    (hcap : q.length + 1 < emuRxCap)
    (hq : q ++ List.replicate (polls.length + 1) (m.cs asiSysStatus) = polls ++ p :: q')
    (h : Linked a24 (Timed m q r (start + UInt32.ofNat k)) s) :
    Returns (waitUnlockedLoop (emuTransport P) 100 start iters) s true
      (Linked a24 (At m q' r)) := by
  induction polls generalizing q s k iters with
  | nil =>
    obtain ⟨iters, rfl⟩ : ∃ n, iters = n + 1 := ⟨iters - 1, by omega⟩
    rw [waitUnlockedLoop]
    refine (poll_backlog h hcap hq).attempt.bind fun s h ↦ ?_
    rw [if_pos (beq_iff_eq.mpr hp)]
    exact .pure ⟨h.addr24, h.target.toAt⟩
  | cons b polls ih =>
    obtain ⟨iters, rfl⟩ : ∃ n, iters = n + 1 :=
      ⟨iters - 1, by rw [List.length_cons] at hiters; omega⟩
    rw [List.length_cons] at hlen hiters hq
    obtain ⟨b', q₁, hread⟩ := exists_cons q (m.cs asiSysStatus)
    rw [List.replicate_succ, ← List.singleton_append, ← List.append_assoc, hread, List.cons_append,
      List.cons_append] at hq
    obtain ⟨rfl, htail⟩ := List.cons.inj hq
    rw [waitUnlockedLoop]
    refine (poll_backlog h hcap hread).attempt.bind fun s h ↦ ?_
    have hlocked : ¬(b' &&& sysStatusLockstatus == 0) = true := by
      rw [beq_iff_eq]
      exact hpolls b' List.mem_cons_self
    rw [if_neg hlocked]
    refine (millis_timed h).bind fun s h ↦ ?_
    rw [elapsed, if_neg (not_timeout (by omega))]
    have hnow : start + UInt32.ofNat k + 1 = start + UInt32.ofNat (k + 1) := by
      rw [UInt32.ofNat_add, UInt32.add_assoc]
      rfl
    rw [hnow] at h
    exact ih (fun b hb ↦ hpolls b (List.mem_cons_of_mem _ hb)) (by omega) (by omega)
      (by rw [length_cons_eq hread]; exact hcap) htail h

theorem waitUnlockedLoop_backlog_true {start : UInt32} {k iters : ℕ} {s' : LinkState UpdiEmu}
    (hk : k < 100) (hcap : q.length + 1 < emuRxCap)
    (h : Linked a24 (Timed m q r (start + UInt32.ofNat k)) s)
    (hrun : waitUnlockedLoop (emuTransport P) 100 start iters s = (.ok true, s')) :
    ∃ polls p q', (∀ b ∈ polls, b &&& sysStatusLockstatus ≠ 0) ∧ p &&& sysStatusLockstatus = 0 ∧
      k + polls.length < 100 ∧
      q ++ List.replicate (polls.length + 1) (m.cs asiSysStatus) = polls ++ p :: q' ∧
      Linked a24 (At m q' r) s' := by
  induction iters generalizing q s k with
  | zero => cases hrun
  | succ iters ih =>
    obtain ⟨b, q₁, hread⟩ := exists_cons q (m.cs asiSysStatus)
    obtain ⟨s₁, hpoll, h₁⟩ := (poll_backlog (P := P) h hcap hread).attempt
    rw [waitUnlockedLoop, Prog.bind_ok hpoll] at hrun
    by_cases hb : b &&& sysStatusLockstatus = 0
    · rw [if_pos (beq_iff_eq.mpr hb)] at hrun
      cases hrun
      exact ⟨[], b, q₁, List.forall_mem_nil _, hb, hk, hread, h₁.addr24, h₁.target.toAt⟩
    · rw [if_neg (by rwa [beq_iff_eq])] at hrun
      obtain ⟨s₂, hclock, h₂⟩ := millis_timed (P := P) h₁
      rw [Prog.bind_ok hclock, elapsed] at hrun
      have hnow : start + UInt32.ofNat k + 1 = start + UInt32.ofNat (k + 1) := by
        rw [UInt32.ofNat_add, UInt32.add_assoc]
        rfl
      rw [hnow] at h₂
      by_cases hlast : k + 1 < 100
      · rw [if_neg (not_timeout hlast)] at hrun
        obtain ⟨polls, p, q', hpolls, hp, hlen, hq, hend⟩ :=
          ih hlast (by rw [length_cons_eq hread]; exact hcap) h₂ hrun
        refine ⟨b :: polls, p, q', List.forall_mem_cons.mpr ⟨hb, hpolls⟩, hp, ?_, ?_, hend⟩
        · rw [List.length_cons]
          omega
        · rw [List.length_cons, List.replicate_succ, ← List.singleton_append, ← List.append_assoc,
            hread, List.cons_append, hq, List.cons_append]
      · have hover : (100 : UInt32) ≤ UInt32.ofNat (k + 1) := by
          obtain rfl : k = 99 := by omega
          decide
        rw [if_pos hover] at hrun
        cases hrun

theorem inProgmode_backlog (h : Linked a24 (At m q r) s) (hcap : q.length + 1 < emuRxCap)
    {b : UInt8} (hq : q ++ [m.cs asiSysStatus] = b :: q') :
    Returns (inProgmode (emuTransport P)) s (b &&& sysStatusNvmprog != 0)
      (Linked a24 (At m q' r)) :=
  (ldcs_backlog h hcap (a := asiSysStatus) hq).attempt.bind fun _ h ↦ .pure h

theorem applyNvmprogKey_backlog (h : Linked a24 (At m q r) s) (hcap : q.length + 1 < emuRxCap)
    {y : UInt8} (hq : q ++ [m.keyed.cs asiKeyStatus] = y :: q') (hy : y &&& keyStatusNvmprog ≠ 0) :
    Returns (applyNvmprogKey (emuTransport P)) s () (Linked a24 (At m.unlocked q' r)) := by
  refine (nvmReset_returns h true).bind fun s h ↦ ?_
  refine (sendKey_returns h rfl).bind fun s h ↦ ?_
  refine (ldcs_backlog (m := m.keyed) h hcap (a := asiKeyStatus) hq).bind fun s h ↦ ?_
  rw [if_neg hy]
  refine (nvmReset_returns h true).attempt.bind fun s h ↦ ?_
  exact (nvmReset_returns h false).attempt.bind fun s h ↦ .pure h

theorem applyNvmprogKey_backlog_fails (h : Linked a24 (At m q r) s) (hcap : q.length + 1 < emuRxCap)
    {y : UInt8} (hq : q ++ [m.keyed.cs asiKeyStatus] = y :: q') (hy : y &&& keyStatusNvmprog = 0) :
    ∃ s', applyNvmprogKey (emuTransport P) s = (.error .protocol, s') := by
  obtain ⟨s₁, h₁, hs₁⟩ := nvmReset_returns (P := P) h true
  obtain ⟨s₂, h₂, hs₂⟩ := sendKey_returns (P := P) hs₁ (k := keyNvm) rfl
  obtain ⟨s₃, h₃, -⟩ := ldcs_backlog (P := P) (m := m.keyed) hs₂ hcap (a := asiKeyStatus) hq
  refine ⟨s₃, ?_⟩
  rw [applyNvmprogKey, Prog.bind_ok h₁, Prog.bind_ok h₂, Prog.bind_ok h₃, if_pos hy]
  rfl

theorem timed_of_at (h : Linked a24 (At m q r) s) :
    Linked a24 (Timed m q r s.ctx.nowMs) s := ⟨h.addr24, h.target, rfl⟩

theorem waitUnlocked_backlog {p : UInt8} {polls : List UInt8}
    (hpolls : ∀ b ∈ polls, b &&& sysStatusLockstatus ≠ 0) (hp : p &&& sysStatusLockstatus = 0)
    (hlen : polls.length < 100) (hcap : q.length + 1 < emuRxCap)
    (hq : q ++ List.replicate (polls.length + 1) (m.cs asiSysStatus) = polls ++ p :: q')
    (h : Linked a24 (At m q r) s) :
    Returns (waitUnlocked (emuTransport P) 100) s true (Linked a24 (At m q' r)) := by
  have hzero (now : UInt32) : now + UInt32.ofNat 0 = now := UInt32.add_zero now
  refine (millis_timed (timed_of_at h)).bind fun s' h ↦ ?_
  rw [← hzero (_ + 1)] at h
  exact waitUnlockedLoop_backlog hpolls hp (by omega) (by unfold nvmMaxPollIters; omega) hcap hq h

theorem waitUnlocked_backlog_true {s' : LinkState UpdiEmu} (hcap : q.length + 1 < emuRxCap)
    (h : Linked a24 (At m q r) s) (hrun : waitUnlocked (emuTransport P) 100 s = (.ok true, s')) :
    ∃ polls p q', (∀ b ∈ polls, b &&& sysStatusLockstatus ≠ 0) ∧ p &&& sysStatusLockstatus = 0 ∧
      polls.length < 100 ∧
      q ++ List.replicate (polls.length + 1) (m.cs asiSysStatus) = polls ++ p :: q' ∧
      Linked a24 (At m q' r) s' := by
  have hzero (now : UInt32) : now + UInt32.ofNat 0 = now := UInt32.add_zero now
  obtain ⟨s₁, hclock, h₁⟩ := millis_timed (P := P) (timed_of_at h)
  rw [waitUnlocked, Prog.bind_ok hclock] at hrun
  rw [← hzero (_ + 1)] at h₁
  obtain ⟨polls, p, q', hpolls, hp, hlen, hq, hend⟩ :=
    waitUnlockedLoop_backlog_true (by omega) hcap h₁ hrun
  exact ⟨polls, p, q', hpolls, hp, by omega, hq, hend⟩

theorem enterProgmode_backlog {reads answers : List UInt8} (he : Entering m reads answers m')
    (h : Linked a24 (At m q r) s) (hcap : q.length + 1 < emuRxCap)
    (hq : q ++ answers = reads ++ q') :
    Returns (enterProgmode (emuTransport P)) s () (Linked a24 (At m' q' r)) := by
  cases he with
  | already hx =>
    refine (inProgmode_backlog h hcap hq).bind fun s h ↦ ?_
    rw [if_pos (bne_iff_ne.mpr hx)]
    exact .pure h
  | @keyed x y p w polls hx hy hpolls hlen hp hw =>
    obtain ⟨x', q₁, hread⟩ := exists_cons q (m.cs asiSysStatus)
    rw [← List.singleton_append, ← List.append_assoc, hread, List.cons_append,
      List.cons_append] at hq
    obtain ⟨rfl, hq₁⟩ := List.cons.inj hq
    have hcap₁ : q₁.length + 1 < emuRxCap := by rwa [length_cons_eq hread]
    obtain ⟨y', q₂, hread₂⟩ := exists_cons q₁ (m.keyed.cs asiKeyStatus)
    rw [← List.singleton_append, ← List.append_assoc, hread₂, List.cons_append,
      List.cons_append] at hq₁
    obtain ⟨rfl, hq₂⟩ := List.cons.inj hq₁
    have hcap₂ : q₂.length + 1 < emuRxCap := by rwa [length_cons_eq hread₂]
    -- the last answer is for the second look at the system status
    have hsplit : (polls ++ [p]) ++ (w :: q') =
        (q₂ ++ List.replicate (polls.length + 1) (m.unlocked.cs asiSysStatus)) ++
          [m.unlocked.cs asiSysStatus] := by
      rw [List.append_assoc q₂, ← List.replicate_succ', hq₂]
      simp only [List.append_assoc, List.cons_append, List.nil_append]
    obtain ⟨q₃, hq₃, hq₄⟩ := split_reads hsplit (by simp)
    rw [List.append_assoc, List.singleton_append] at hq₃
    have hcap₃ : q₃.length + 1 < emuRxCap := by
      have hlen₃ := congrArg List.length hq₃
      simp only [List.length_append, List.length_replicate, List.length_cons] at hlen₃
      omega
    refine (inProgmode_backlog h hcap hread).bind fun s h ↦ ?_
    rw [if_neg (by rw [bne_iff_ne]; exact not_not.mpr hx)]
    refine (applyNvmprogKey_backlog h hcap₁ hread₂ hy).bind fun s h ↦ ?_
    refine (waitUnlocked_backlog hpolls hp hlen hcap₂ hq₃ h).bind fun s h ↦ ?_
    rw [if_pos rfl]
    refine (inProgmode_backlog h hcap₃ hq₄).bind fun s h ↦ ?_
    rw [if_pos (bne_iff_ne.mpr hw)]
    exact .pure h

theorem enterProgmode_backlog_ok {s' : LinkState UpdiEmu} (h : Linked a24 (At m q r) s)
    (hcap : q.length + 1 < emuRxCap) (hrun : enterProgmode (emuTransport P) s = (.ok (), s')) :
    ∃ reads answers m' q', Entering m reads answers m' ∧ q ++ answers = reads ++ q' ∧
      Linked a24 (At m' q' r) s' := by
  obtain ⟨x, q₁, hread⟩ := exists_cons q (m.cs asiSysStatus)
  obtain ⟨s₁, h₁, hs₁⟩ := inProgmode_backlog (P := P) h hcap hread
  have hcap₁ : q₁.length + 1 < emuRxCap := by rwa [length_cons_eq hread]
  rw [enterProgmode, Prog.bind_ok h₁] at hrun
  by_cases hx : x &&& sysStatusNvmprog = 0
  · rw [if_neg (by rw [bne_iff_ne]; exact not_not.mpr hx)] at hrun
    obtain ⟨y, q₂, hread₂⟩ := exists_cons q₁ (m.keyed.cs asiKeyStatus)
    have hcap₂ : q₂.length + 1 < emuRxCap := by rwa [length_cons_eq hread₂]
    by_cases hy : y &&& keyStatusNvmprog = 0
    · obtain ⟨s₂, h₂⟩ := applyNvmprogKey_backlog_fails (P := P) hs₁ hcap₁ hread₂ hy
      rw [Prog.bind_error h₂] at hrun
      cases hrun
    obtain ⟨s₂, h₂, hs₂⟩ := applyNvmprogKey_backlog (P := P) hs₁ hcap₁ hread₂ hy
    rw [Prog.bind_ok h₂] at hrun
    obtain ⟨unlocked, s₃, h₃, hrun⟩ := Prog.bind_eq_ok.mp hrun
    cases unlocked with
    | false => cases hrun
    | true =>
      rw [if_pos rfl] at hrun
      obtain ⟨polls, p, q₃, hpolls, hp, hlen, hq₃, hs₃⟩ := waitUnlocked_backlog_true hcap₂ hs₂ h₃
      have hcap₃ : q₃.length + 1 < emuRxCap := by
        have hlen₃ := congrArg List.length hq₃
        simp only [List.length_append, List.length_replicate, List.length_cons] at hlen₃
        omega
      obtain ⟨w, q₄, hread₄⟩ := exists_cons q₃ (m.unlocked.cs asiSysStatus)
      obtain ⟨s₄, h₄, hs₄⟩ := inProgmode_backlog (P := P) hs₃ hcap₃ hread₄
      rw [Prog.bind_ok h₄] at hrun
      by_cases hw : w &&& sysStatusNvmprog = 0
      · rw [if_neg (by rw [bne_iff_ne]; exact not_not.mpr hw)] at hrun
        cases hrun
      · rw [if_pos (bne_iff_ne.mpr hw)] at hrun
        cases hrun
        refine ⟨_, _, _, q₄, .keyed hx hy hpolls hlen hp hw, ?_, hs₄⟩
        calc q ++ (m.cs asiSysStatus :: m.keyed.cs asiKeyStatus ::
              List.replicate (polls.length + 2) (m.unlocked.cs asiSysStatus))
            = q ++ [m.cs asiSysStatus] ++ [m.keyed.cs asiKeyStatus] ++
              List.replicate (polls.length + 1) (m.unlocked.cs asiSysStatus) ++
              [m.unlocked.cs asiSysStatus] := by
              rw [List.replicate_succ']
              simp only [List.append_assoc, List.cons_append, List.nil_append]
          _ = x :: y :: (q₂ ++ List.replicate (polls.length + 1) (m.unlocked.cs asiSysStatus)) ++
              [m.unlocked.cs asiSysStatus] := by
              rw [hread, List.cons_append, hread₂]
              simp only [List.cons_append]
          _ = x :: y :: (polls ++ p :: (q₃ ++ [m.unlocked.cs asiSysStatus])) := by
              rw [hq₃]
              simp only [List.append_assoc, List.cons_append]
          _ = x :: y :: (polls ++ [p, w]) ++ q₄ := by
              rw [hread₄]
              simp only [List.append_assoc, List.cons_append, List.nil_append]
  · rw [if_pos (bne_iff_ne.mpr hx)] at hrun
    cases hrun
    exact ⟨[x], _, m, q₁, .already hx, hread, hs₁⟩

theorem readSibInfo_backlog (h : Linked a24 (At m q r) s) (hcap : q.length + 16 < emuRxCap)
    {sib : List UInt8} (hlen : sib.length = 16) (hq : q ++ sibBytes m 16 = sib ++ q') :
    Returns (readSibInfo (emuTransport P)) s (sibInfo sib) (Linked a24 (At m q' r)) := by
  have h16 : sibLength 16 = 16 := rfl
  have hpush : enqueueAll q (sibBytes m (sibLength 16)) = sib ++ q' := by
    rw [h16, enqueueAll_of_lt (by rw [sibBytes_length]; exact hcap), hq]
  have hsib : Returns (readSib (emuTransport P) 16) s sib (Linked a24 (At m q' r)) := by
    refine (send_returns (fun e he ↦ he.sib 16) h).bind fun s h ↦ ?_
    rw [hpush] at h
    have hr := recvRaw_returns (P := P) drains_at h 16
    rw [List.take_left' hlen, List.drop_left' hlen] at hr
    refine hr.bind fun s h ↦ ?_
    rw [if_pos (by omega)]
    exact .pure h
  refine hsib.bind fun s h ↦ ?_
  rw [if_neg (by omega)]
  exact .pure h

theorem readSignature_load (h : Linked a24 (Aimed m q r sigrowDefaultAddress) s)
    (hcap : q.length + 3 < emuRxCap) {sig : List UInt8} (hlen : sig.length = 3)
    (hq : q ++ cells m sigrowDefaultAddress 3 = sig ++ q') :
    Returns (do repeatCount (emuTransport P) 3; ldPtrInc (emuTransport P) 3) s sig
      (Linked a24 (At m q' 0)) := by
  refine (repeatCount_returns h (by decide) (by decide)).bind fun s h ↦ ?_
  refine (send_returns (fun e he ↦ he.load false (by decide)) h).bind fun s h ↦ ?_
  have hload : enqueueAll q (cells m sigrowDefaultAddress ((3 - 1 + 1) * 1)) = sig ++ q' := by
    rw [enqueueAll_of_lt (by rw [cells_length]; exact hcap), hq]
  have hone : (if false = true then 2 else 1) = 1 := rfl
  rw [hone, hload] at h
  have hr := recvRaw_returns (P := P) drains_at h 3
  rw [List.take_left' hlen, List.drop_left' hlen] at hr
  refine hr.bind fun s h ↦ ?_
  rw [if_pos hlen]
  exact .pure h

theorem readSignature_eq : readSignature (emuTransport P) none = (do
    stPtr (emuTransport P) sigrowDefaultAddress
    repeatCount (emuTransport P) 3
    ldPtrInc (emuTransport P) 3) := rfl

section Signature

variable (hP : P.store (m.cs csCtrla) = true)
include hP

theorem stPtr_backlog (h : Linked a24 (At m q r) s) (hcap : q.length + 1 < emuRxCap) (address : ℕ)
    (hq : q ++ [phyAck] = phyAck :: q') :
    Returns (stPtr (emuTransport P) address) s ()
      (Linked a24 (Aimed m q' r (wireAddress a24 address))) := by
  refine (addr24_returns h).bind fun s h ↦ ?_
  refine (send_returns (fun e he ↦ he.stPtr a24 address) h).bind fun s h ↦ ?_
  rw [ackBytes_of hP, enqueueAll_of_lt hcap, hq] at h
  exact recvAck_returns drains_aimed h

theorem stPtr_backlog_fails (h : Linked a24 (At m q r) s) (hcap : q.length + 1 < emuRxCap)
    (address : ℕ) {b : UInt8} (hq : q ++ [phyAck] = b :: q') (hb : b ≠ phyAck) :
    ∃ s', stPtr (emuTransport P) address s = (.error .nack, s') := by
  obtain ⟨s₁, h₁, hs₁⟩ := addr24_returns h
  obtain ⟨s₂, h₂, hs₂⟩ := send_returns (P := P) (fun e he ↦ he.stPtr a24 address) hs₁
  rw [ackBytes_of hP, enqueueAll_of_lt hcap, hq] at hs₂
  obtain ⟨s₃, h₃, -⟩ := recvRaw_returns (P := P) drains_aimed hs₂ 1
  refine ⟨s₃, ?_⟩
  have hne : ¬(b :: q').take 1 = [phyAck] := fun heq ↦ hb (List.cons.inj heq).1
  rw [stPtr, Prog.bind_ok h₁, Prog.bind_ok h₂, recvAck, Prog.bind_ok h₃, if_neg hne]
  rfl

theorem readSignature_backlog (h : Linked a24 (At m q r) s) (hcap : q.length + 3 < emuRxCap)
    {sig : List UInt8} (hlen : sig.length = 3)
    (hq : q ++ phyAck :: cells m sigrowDefaultAddress 3 = phyAck :: sig ++ q') :
    Returns (readSignature (emuTransport P) none) s sig (Linked a24 (At m q' 0)) := by
  have hw : wireAddress a24 sigrowDefaultAddress = sigrowDefaultAddress := by cases a24 <;> rfl
  obtain ⟨b, q₁, hread⟩ := exists_cons q phyAck
  rw [← List.singleton_append, ← List.append_assoc, hread, List.cons_append, List.cons_append] at hq
  obtain ⟨rfl, hq₁⟩ := List.cons.inj hq
  rw [readSignature_eq]
  refine (stPtr_backlog hP h (by omega) _ hread).bind fun s h ↦ ?_
  rw [hw] at h
  exact readSignature_load h (by rw [length_cons_eq hread]; exact hcap) hlen hq₁

theorem readSignature_backlog_ok {s' : LinkState UpdiEmu} {sig : List UInt8}
    (h : Linked a24 (At m q r) s) (hcap : q.length + 3 < emuRxCap)
    (hrun : readSignature (emuTransport P) none s = (.ok sig, s')) :
    ∃ q', q ++ phyAck :: cells m sigrowDefaultAddress 3 = phyAck :: sig ++ q' := by
  have hw : wireAddress a24 sigrowDefaultAddress = sigrowDefaultAddress := by cases a24 <;> rfl
  obtain ⟨b, q₁, hread⟩ := exists_cons q phyAck
  rw [readSignature_eq] at hrun
  by_cases hb : b = phyAck
  · subst hb
    obtain ⟨s₁, h₁, hs₁⟩ := stPtr_backlog hP h (by omega) sigrowDefaultAddress hread
    rw [hw] at hs₁
    have hlen : (q₁ ++ cells m sigrowDefaultAddress 3).length = q₁.length + 3 := by
      rw [List.length_append, cells_length]
    have hthree : ((q₁ ++ cells m sigrowDefaultAddress 3).take 3).length = 3 := by
      rw [List.length_take, hlen]
      omega
    have hload := readSignature_load (P := P) hs₁ (by rw [length_cons_eq hread]; exact hcap) hthree
      (List.take_append_drop 3 _).symm
    rw [Prog.bind_ok h₁] at hrun
    obtain ⟨heq, -⟩ := hload.eq_of_run hrun
    cases heq
    refine ⟨(q₁ ++ cells m sigrowDefaultAddress 3).drop 3, ?_⟩
    rw [← List.singleton_append, ← List.append_assoc, hread, List.cons_append, List.cons_append,
      List.take_append_drop]
  · obtain ⟨s₁, h₁⟩ := stPtr_backlog_fails hP h (by omega) sigrowDefaultAddress hread hb
    rw [Prog.bind_error h₁] at hrun
    cases hrun

end Signature

def Identifies (br : Option (UpdiEmu → UpdiEmu)) (d : UpdiDevice) (m : EmuMem)
    (s : SessionState UpdiEmu) : Prop :=
  Returns (connect ((emuTransport .emulator).withBreak br)) s () fun s' ↦
    s'.session.sib = sibInfo (sibBytes m 16) ∧ s'.session.sig = cells m sigrowDefaultAddress 3 ∧
      s'.session.device = some d

theorem cells_of_sameStore (h : m.SameStore m') (p n : ℕ) : cells m' p n = cells m p n :=
  List.map_congr_left fun _ _ ↦ h.memRead _

theorem linked_width {T : UpdiEmu → Prop} {ctx : UpdiEmu} (link : UpdiLink) (h : T ctx) :
    Linked (link.addressBytes == 3) T ⟨link, ctx⟩ := ⟨rfl, h⟩

/-- Once the link is taken for up with the answers `q` unread, the target is
identified if and only if these read like the answers of a connect. -/
theorem identifies_iff_replays {d : UpdiDevice} {br : Option (UpdiEmu → UpdiEmu)}
    {s : SessionState UpdiEmu}
    (hact : Returns (activate ((emuTransport .emulator).withBreak br)) ⟨s.session.link, s.ctx⟩ ()
      (Linked a24 (At m q r))) (hcap : q.length + 16 < emuRxCap)
    (hid : UpdiDevice.findById (UpdiDevice.idFromSig (cells m sigrowDefaultAddress 3)) = some d) :
    Identifies br d m s ↔ Replays m q := by
  have hsibrun : readSibInfo ((emuTransport .emulator).withBreak br) =
      readSibInfo (emuTransport .emulator) := rfl
  have henter : enterProgmode ((emuTransport .emulator).withBreak br) =
      enterProgmode (emuTransport .emulator) := enterProgmode_break _ br
  have hsigrun : readSignature ((emuTransport .emulator).withBreak br) =
      readSignature (emuTransport .emulator) := rfl
  unfold Identifies Returns
  simp only [Connect.connect_eq_ok, hsibrun, henter, hsigrun]
  obtain ⟨l₁, h₁, hl₁⟩ := hact
  constructor
  · rintro ⟨_, ⟨l₁', i, l₂, l₃, sig, l₄, d', h₁', h₂, h₃, h₄, hd, rfl⟩, hi, hsig, -⟩
    obtain ⟨-, rfl⟩ := Prod.mk.inj (h₁.symm.trans h₁')
    have hlen : (q ++ sibBytes m 16).length = q.length + 16 := by
      rw [List.length_append, sibBytes_length]
    have hlen₁ : ((q ++ sibBytes m 16).take 16).length = 16 := by
      rw [List.length_take, hlen]
      omega
    have hq₁ := List.take_append_drop 16 (q ++ sibBytes m 16)
    obtain ⟨heq, hl₂⟩ := (readSibInfo_backlog (P := .emulator) hl₁ hcap hlen₁ hq₁.symm).eq_of_run h₂
    cases heq
    have hcap₁ : ((q ++ sibBytes m 16).drop 16).length + 16 < emuRxCap := by
      rw [List.length_drop, hlen]
      omega
    obtain ⟨reads, answers, m', q₂, he, hq₂, hl₃⟩ :=
      enterProgmode_backlog_ok (P := .emulator) (linked_width _ hl₂.target) (by omega) h₃
    have hlen₂ : q₂.length + 3 < emuRxCap := by
      have hsum := congrArg List.length hq₂
      rw [List.length_append, List.length_append, he.length_eq] at hsum
      omega
    obtain ⟨q₃, hq₃⟩ := readSignature_backlog_ok (P := .emulator) rfl hl₃ hlen₂ h₄
    dsimp only at hsig hi
    rw [hsig, cells_of_sameStore he.sameStore] at hq₃
    exact ⟨_, _, ⟨hlen₁, hi, he⟩, q₃, reads_append hq₁.symm hq₂ hq₃⟩
  · rintro ⟨_, _, hdialogue, q₃, hq⟩
    obtain @⟨sib, reads, answers, m', hlen, hsib, he⟩ := hdialogue
    obtain ⟨q₁, q₂, hq₁, hq₂, hq₃⟩ := reads_split hq (by rw [hlen, sibBytes_length]) he.length_eq
    have hcap₁ : q₁.length = q.length := by
      have hsum := congrArg List.length hq₁
      rw [List.length_append, List.length_append, sibBytes_length, hlen] at hsum
      omega
    have hcap₂ : q₂.length = q₁.length := by
      have hsum := congrArg List.length hq₂
      rw [List.length_append, List.length_append, he.length_eq] at hsum
      omega
    obtain ⟨l₂, h₂, hl₂⟩ := readSibInfo_backlog (P := .emulator) hl₁ hcap hlen hq₁
    have hwidth := linked_width
      (l₂.link.setAddressSize (if (sibInfo sib).nvmVersion = 0 then 2 else 3)) hl₂.target
    obtain ⟨l₃, h₃, hl₃⟩ := enterProgmode_backlog (P := .emulator) he hwidth (by omega) hq₂
    rw [← cells_of_sameStore he.sameStore] at hq₃
    obtain ⟨l₄, h₄, -⟩ :=
      readSignature_backlog (P := .emulator) rfl hl₃ (by omega) (cells_length _ _ _) hq₃
    rw [cells_of_sameStore he.sameStore] at h₄
    exact ⟨_, ⟨l₁, _, l₂, l₃, _, l₄, d, h₁, h₂, h₃, h₄, hid, rfl⟩, hsib, rfl, rfl⟩

end UpdiProgrammer.HostTest
