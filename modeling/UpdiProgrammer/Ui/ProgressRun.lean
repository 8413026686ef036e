import UpdiProgrammer.Ui.Progress

namespace UpdiProgrammer.Ui

open Updi Hex HostTest Library.Program Prog

def UpdiPhase.index : UpdiPhase → ℕ
  | .connecting => 0
  | .readingFile => 1
  | .erasing => 2
  | .writing => 3
  | .verifying => 4
  | .reading => 5
  | .done => 6

namespace Progress

/-- A later phase of the work starts at zero, and within a phase more is done of the
same total. -/
def Follows (p q : Progress) : Prop :=
  (p.phase.index < q.phase.index ∧ q.phase ≠ .done ∧ q.progDone = 0) ∨
    (p.phase = q.phase ∧ p.progTotal = q.progTotal ∧ p.progDone < q.progDone)

/-- No phase is gone back to, and nothing that was done in a phase is taken back. -/
def Leads (p q : Progress) : Prop :=
  p.phase.index < q.phase.index ∨
    (p.phase = q.phase ∧ p.progTotal = q.progTotal ∧ p.progDone ≤ q.progDone)

/-- There is never more done than there is to do, which is a flash at most. -/
def Bounded (p : Progress) : Prop := p.progDone ≤ p.progTotal ∧ p.progTotal ≤ 0x10000

variable {p q r : Progress}

theorem Leads.refl (p : Progress) : p.Leads p := .inr ⟨rfl, rfl, Nat.le_refl _⟩

theorem Leads.follow (h : p.Leads q) (hq : q.Follows r) : p.Leads r := by
  rcases h with hlt | ⟨hphase, htotal, hle⟩
  · rcases hq with ⟨hlt', -, -⟩ | ⟨hphase', -, -⟩
    · exact .inl (Nat.lt_trans hlt hlt')
    · exact .inl (hphase' ▸ hlt)
  · rcases hq with ⟨hlt', -, -⟩ | ⟨hphase', htotal', hlt'⟩
    · exact .inl (hphase ▸ hlt')
    · exact .inr ⟨hphase.trans hphase', htotal.trans htotal',
        Nat.le_of_lt (Nat.lt_of_le_of_lt hle hlt')⟩

theorem Bounded.percent_eq (h : p.Bounded) : p.percent = p.progDone * 100 / p.progTotal := by
  obtain ⟨hle, htotal⟩ := h
  rw [Progress.percent, Nat.mod_eq_of_lt (by omega)]

theorem Bounded.percent_le (h : p.Bounded) : p.percent ≤ 100 := by
  rw [h.percent_eq]
  apply Nat.div_le_of_le_mul
  rw [Nat.mul_comm]
  exact Nat.mul_le_mul_left 100 h.1 |>.trans (Nat.le_of_eq (Nat.mul_comm _ _))

theorem Leads.percent_le (h : p.Leads q) (hphase : p.phase = q.phase) (hp : p.Bounded)
    (hq : q.Bounded) :
    p.percent ≤ q.percent := by
  rcases h with hlt | ⟨-, htotal, hle⟩
  · exact absurd (congrArg UpdiPhase.index hphase) (Nat.ne_of_lt hlt)
  · rw [hp.percent_eq, hq.percent_eq, htotal]
    exact Nat.div_le_div_right (Nat.mul_le_mul_right 100 hle)

theorem Bounded.popupText_fits (h : p.Bounded) : p.popupText.length + 1 ≤ 48 := by
  have hname : (phaseName p.phase).length ≤ 12 := by
    cases p.phase <;> decide
  have hnumber : ∀ n ≤ 100, (toString n).length ≤ 3 := by decide
  have hpercent := hnumber p.percent h.percent_le
  have hends : "\n".length = 1 ∧ "%".length = 1 ∧ "...".length = 3 := by decide
  unfold popupText
  split_ifs
  · simp only [String.length_append]
    omega
  · simp only [String.length_append]
    omega

end Progress

/-- The reports of an operation, of which `p` is the last so far. -/
inductive Orderly : List Progress → Progress → Prop
  | first : Orderly [.start] .start
  | next {log : List Progress} {p q : Progress} (h : Orderly log p) (hq : p.Follows q)
      (hb : q.Bounded) :
      Orderly (log ++ [q]) q

namespace Orderly

variable {log l : List Progress} {p q : Progress}

theorem current_eq (h : Orderly log p) : current log = p := by
  cases h with
  | first => rfl
  | next h hq hb => simp [current]

theorem bounded (h : Orderly log p) : p.Bounded := by
  cases h with
  | first => exact ⟨Nat.le_refl 0, Nat.zero_le _⟩
  | next h hq hb => exact hb

theorem working (h : Orderly log p) : p.phase.index < UpdiPhase.done.index := by
  induction h with
  | first => decide
  | @next log p q h hq hb ih =>
    rcases hq with ⟨-, hne, -⟩ | ⟨hphase, -, -⟩
    · cases hphase : q.phase <;> first | decide | exact absurd hphase hne
    · rw [← hphase]
      exact ih

theorem earlier (h : Orderly log p) (hl : l <+: log) :
    (current l).Bounded ∧ (current l).Leads p ∧ (l ≠ [] → Orderly l (current l)) := by
  induction h with
  | first =>
    rcases List.prefix_concat_iff.mp (show l <+: [] ++ [Progress.start] from hl) with rfl | hnil
    · exact ⟨first.bounded, .refl _, fun _ ↦ first⟩
    · obtain rfl := List.prefix_nil.mp hnil
      exact ⟨first.bounded, .refl _, fun hne ↦ absurd rfl hne⟩
  | next h hq hb ih =>
    rcases List.prefix_concat_iff.mp hl with rfl | hl
    · have hend := next h hq hb
      rw [hend.current_eq]
      exact ⟨hb, .refl _, fun _ ↦ hend⟩
    · obtain ⟨hbound, hleads, hord⟩ := ih hl
      exact ⟨hbound, hleads.follow hq, hord⟩

end Orderly

/-- The reports of an operation, with or without that of its end. -/
inductive Ended : List Progress → Progress → Prop
  | stopped {log : List Progress} {p : Progress} (h : Orderly log p) : Ended log p
  | done {log : List Progress} {p : Progress} (h : Orderly log p) :
      Ended (log ++ [{ p with phase := .done }]) { p with phase := .done }

namespace Ended

variable {log l : List Progress} {p : Progress}

theorem current_eq (h : Ended log p) : current log = p := by
  cases h with
  | stopped h => exact h.current_eq
  | done h => simp [current]

theorem bounded (h : Ended log p) : p.Bounded := by
  cases h with
  | stopped h => exact h.bounded
  | done h => exact h.bounded

theorem earlier (h : Ended log p) (hl : l <+: log) :
    (current l).Bounded ∧ (current l).Leads p ∧ (l ≠ [] → Ended l (current l)) := by
  cases h with
  | stopped h =>
    obtain ⟨hbound, hleads, hord⟩ := h.earlier hl
    exact ⟨hbound, hleads, fun hne ↦ .stopped (hord hne)⟩
  | done h =>
    rcases List.prefix_concat_iff.mp hl with rfl | hl
    · have hend := Ended.done h
      rw [hend.current_eq]
      exact ⟨hend.bounded, .refl _, fun _ ↦ hend⟩
    · obtain ⟨hbound, hleads, hord⟩ := h.earlier hl
      refine ⟨hbound, .inl ?_, fun hne ↦ .stopped (hord hne)⟩
      rcases hleads with hlt | ⟨hphase, -, -⟩
      · exact Nat.lt_trans hlt h.working
      · rw [hphase]
        exact h.working

end Ended

/-- The reports so far are in order. -/
def InOrder (log : List Progress) : Prop := ∃ p, Orderly log p

/-- They are, and the last one has everything done. -/
def AllDone (log : List Progress) : Prop := ∃ p, Orderly log p ∧ p.progDone = p.progTotal

section Quiet

variable {σ ρ α : Type}

theorem fixes_line {m : LinkM σ α} {p : LinkM (σ × ρ) α}
    (h : ∀ r, Agrees (OverLine (Beside r)) m p) :
    Fixes (fun s : LinkState (σ × ρ) ↦ s.ctx.2) p := by
  intro s
  obtain ⟨-, -, hctx⟩ := h s.ctx.2 ⟨s.link, s.ctx.1⟩ s ⟨rfl, rfl⟩
  have hsame : (p s).2.ctx = ((m ⟨s.link, s.ctx.1⟩).2.ctx, s.ctx.2) := hctx
  exact (congrArg Prod.snd hsame).trans rfl

theorem fixes_worker {m : WorkerM σ α} {p : WorkerM (σ × ρ) α}
    (h : ∀ r, Agrees (Worker.OverWorker (Beside r)) m p) :
    Fixes (fun s : WorkerState (σ × ρ) ↦ s.ctx.2) p := by
  intro s
  obtain ⟨-, -, hctx⟩ := h s.ctx.2 ⟨s.app, s.ctx.1⟩ s ⟨rfl, rfl⟩
  have hsame : (p s).2.ctx = ((m ⟨s.app, s.ctx.1⟩).2.ctx, s.ctx.2) := hctx
  exact (congrArg Prod.snd hsame).trans rfl

end Quiet

section Loops

open UpdiSession Worker

variable {σ α : Type} {t : UpdiTransport σ} {p : Progress} {len : ℕ}

theorem quiet_line {m : LinkM σ α} {m' : LinkM (σ × List Progress) α}
    (h : ∀ r, Agrees (OverLine (Beside r)) m m') :
    Triple (fun s ↦ Orderly s.ctx.2 p) m' (fun _ s ↦ Orderly s.ctx.2 p)
      (fun _ s ↦ InOrder s.ctx.2) :=
  ((fixes_line h).triple (Orderly · p)).conseq (fun _ h ↦ h) (fun _ _ h ↦ h) fun _ _ h ↦ ⟨p, h⟩

theorem orderly_callBack {done done' : ℕ} (hlt : done < done') (hle : done' ≤ len)
    {phase : UpdiPhase} {R : UpdiErr → LinkState (σ × List Progress) → Prop} :
    Triple (fun s ↦ Orderly s.ctx.2 ⟨phase, done, len⟩) (callBack workerProgress done' len)
      (fun _ s ↦ Orderly s.ctx.2 ⟨phase, done', len⟩) R := by
  apply Triple.modify
  intro s hs
  have hstep : Orderly (s.ctx.2 ++ [⟨phase, done', len⟩]) ⟨phase, done', len⟩ :=
    .next hs (.inr ⟨rfl, rfl, hlt⟩) ⟨hle, hs.bounded.2⟩
  have hcurrent : ({ current s.ctx.2 with progDone := done', progTotal := len } : Progress) =
      ⟨phase, done', len⟩ := by
    rw [hs.current_eq]
  rw [← hcurrent] at hstep
  exact hcurrent ▸ hstep

/-- A loop from offset `off` on, before which `done` was reported, and at whose end all is. -/
abbrev LoopReports (phase : UpdiPhase) (done len : ℕ) (m : LinkM (σ × List Progress) α)
    (Q : α → Prop) : Prop :=
  Triple (fun s ↦ Orderly s.ctx.2 ⟨phase, done, len⟩) m
    (fun a s ↦ InOrder s.ctx.2 ∧ (Q a → Orderly s.ctx.2 ⟨phase, len, len⟩))
      (fun _ s ↦ InOrder s.ctx.2)

theorem loopReports_pure {phase : UpdiPhase} {done : ℕ} (hdone : done = len) {a : α}
    {Q : α → Prop} :
    LoopReports phase done len (pure a : LinkM (σ × List Progress) α) Q := by
  subst hdone
  exact .pure fun s hs ↦ ⟨⟨_, hs⟩, fun _ ↦ hs⟩

theorem reports_writePages (phase : UpdiPhase) (d : UpdiDevice) {page : ℕ} (hpage : 0 < page)
    (flashAddress fuel off done : ℕ) (data : List UInt8) (hfuel : data.length ≤ fuel)
    (hdone : done + data.length = len) (hoff : data.length ≠ 0 → done = off) :
    LoopReports phase done len
      (writePagesCb (t.beside _) workerProgress d page flashAddress len fuel off data)
        fun _ ↦ True := by
  induction fuel generalizing off done data with
  | zero => exact loopReports_pure (by omega)
  | succ fuel ih =>
    refine Triple.ite (fun hnil ↦ loopReports_pure (by omega)) fun hne ↦ ?_
    obtain rfl := hoff hne
    have hlen : (data.drop page).length = data.length - page := List.length_drop
    have hrest := ih (done + page) (done + min data.length page) (data.drop page) (by omega)
      (by omega) (by omega)
    have hreport := (orderly_callBack (σ := σ) (by omega : done < done + min data.length page)
      (by omega : done + min data.length page ≤ len)).bind fun _ ↦ hrest
    refine Triple.ite (fun _ ↦ ?_) fun _ ↦ hreport
    exact (quiet_line fun r ↦ compares_writeFlashPage (t.alike_beside r).compared d _ _).bind
      fun _ ↦ hreport

theorem reports_verifyChunks (phase : UpdiPhase) (flashAddress fuel done : ℕ) (data : List UInt8)
    (hfuel : data.length ≤ fuel) (hdone : done + data.length = len) : LoopReports phase done len
      (verifyChunksCb (t.beside _) workerProgress flashAddress len fuel done data) (· = none) := by
  induction fuel generalizing done data with
  | zero => exact loopReports_pure (by omega)
  | succ fuel ih =>
    refine Triple.ite (fun hnil ↦ loopReports_pure (by omega)) fun hne ↦ ?_
    have hpos : 0 < readChunk := by decide
    have hlen : (data.drop (min data.length readChunk)).length =
        data.length - min data.length readChunk :=
      List.length_drop
    have hrest := ih (done + min data.length readChunk) (data.drop (min data.length readChunk))
      (by omega) (by omega)
    refine (quiet_line fun r ↦ agrees_readChunks (t.alike_beside r).link _ _ _).bind fun rb ↦ ?_
    cases firstDifference done data rb with
    | some m => exact .pure fun s hs ↦ ⟨⟨_, hs⟩, fun h ↦ by cases h⟩
    | none =>
      exact (orderly_callBack (σ := σ) (by omega : done < done + min data.length readChunk)
        (by omega : done + min data.length readChunk ≤ len)).bind fun _ ↦ hrest

theorem reports_readFlashChunks (phase : UpdiPhase) (flashAddress fuel done left : ℕ)
    (hfuel : left ≤ fuel) (hdone : done + left = len) : LoopReports phase done len
      (readFlashChunksCb (t.beside _) workerProgress flashAddress len fuel done left)
        fun _ ↦ True := by
  induction fuel generalizing done left with
  | zero => exact loopReports_pure (by omega)
  | succ fuel ih =>
    refine Triple.ite (fun hnil ↦ loopReports_pure (by omega)) fun hne ↦ ?_
    have hpos : 0 < readChunk := by decide
    have hrest := ih (done + min left readChunk) (left - min left readChunk) (by omega) (by omega)
    refine (quiet_line fun r ↦ agrees_readChunks (t.alike_beside r).link _ _ _).bind fun bytes ↦ ?_
    refine (orderly_callBack (σ := σ) (by omega : done < done + min left readChunk)
      (by omega : done + min left readChunk ≤ len)).bind fun _ ↦ hrest.bind fun rest ↦ ?_
    exact .pure fun s hs ↦ hs

end Loops

namespace Worker

open UpdiSession

variable {σ α β : Type} {t : UpdiTransport σ} {env : Env} {p : Progress} {phase : UpdiPhase}
  {len : ℕ}

theorem reports_onLink {P R : List Progress → Prop} {Q : α → List Progress → Prop}
    {m : LinkM (σ × List Progress) α}
    (h : Triple (fun s ↦ P s.ctx.2) m (fun a s ↦ Q a s.ctx.2) fun _ s ↦ R s.ctx.2) :
    Triple (fun s ↦ P s.ctx.2) (onLink m) (fun a s ↦ Q a s.ctx.2) fun _ s ↦ R s.ctx.2 := by
  apply Triple.zoom
  intro s hs
  apply h.conseq
  · intro l hl
    exact hl ▸ hs
  · exact fun _ _ hq ↦ hq
  · exact fun _ _ hr ↦ hr

theorem reports_onSession {P R : List Progress → Prop} {Q : α → List Progress → Prop}
    {m : SessionM (σ × List Progress) α} (hPR : ∀ l, P l → R l)
    (h : Triple (fun s ↦ P s.ctx.2) m (fun a s ↦ Q a s.ctx.2) fun _ s ↦ R s.ctx.2) :
    Triple (fun s ↦ P s.ctx.2) (onSession m) (fun a s ↦ Q a s.ctx.2) fun _ s ↦ R s.ctx.2 := by
  intro s hs
  by_cases hlink : s.app.linkTransport = true
  · have hm := h ⟨s.app.session, s.ctx⟩ hs
    rw [onSession_run hlink]
    rcases hrun : m ⟨s.app.session, s.ctx⟩ with ⟨e | a, u⟩ <;> rw [hrun] at hm <;> exact hm
  · have hrun : onSession m s = (.error .nullTransport, s) := if_neg hlink
    rw [hrun]
    exact hPR _ hs

theorem orderly_fixes {m : SessionM (σ × List Progress) α} (h : Fixes (fun s ↦ s.ctx.2) m) :
    Triple (fun s ↦ Orderly s.ctx.2 p) m (fun _ s ↦ Orderly s.ctx.2 p) fun _ s ↦ InOrder s.ctx.2 :=
  (h.triple (Orderly · p)).conseq (fun _ h ↦ h) (fun _ _ h ↦ h) fun _ _ h ↦ ⟨p, h⟩

theorem reports_writeFlash (image : List UInt8) :
    Triple (fun s ↦ Orderly s.ctx.2 ⟨phase, 0, image.length⟩)
    (onSession (writeFlashCb (t.beside _) workerProgress image))
    (fun _ s ↦ Orderly s.ctx.2 ⟨phase, image.length, image.length⟩) fun _ s ↦ InOrder s.ctx.2 := by
  refine reports_onSession (P := (Orderly · ⟨phase, 0, image.length⟩)) (R := InOrder)
    (Q := fun _ ↦ (Orderly · ⟨phase, image.length, image.length⟩)) (fun _ h ↦ ⟨_, h⟩) ?_
  refine (orderly_fixes fixes_connectedDevice).bind fun dev ↦
    .ite (fun _ ↦ .fail fun s hs ↦ ⟨_, hs⟩) fun hpage ↦ ?_
  refine (orderly_fixes fixes_boundDevice).bind fun d ↦
    reports_onLink (P := (Orderly · ⟨phase, 0, image.length⟩))
    (R := InOrder) (Q := fun _ ↦ (Orderly · ⟨phase, image.length, image.length⟩)) ?_
  have hloop := @reports_writePages σ t image.length phase d dev.flashPageSize
    (by omega) dev.flashAddress image.length 0 0 image (Nat.le_refl _) (Nat.zero_add _) fun _ ↦ rfl
  exact hloop.conseq (fun _ h ↦ h) (fun _ _ h ↦ h.2 trivial) fun _ _ h ↦ h

theorem reports_verifyFlash (image : List UInt8) :
    Triple (fun s ↦ Orderly s.ctx.2 ⟨phase, 0, image.length⟩)
    (onSession (verifyFlashCb (t.beside _) workerProgress image))
    (fun r s ↦ InOrder s.ctx.2 ∧ (r = none → Orderly s.ctx.2 ⟨phase, image.length, image.length⟩))
    fun _ s ↦ InOrder s.ctx.2 := by
  refine reports_onSession (P := (Orderly · ⟨phase, 0, image.length⟩)) (R := InOrder)
    (Q := fun r log ↦ InOrder log ∧ (r = none → Orderly log ⟨phase, image.length, image.length⟩))
      (fun _ h ↦ ⟨_, h⟩) ?_
  refine (orderly_fixes fixes_connectedDevice).bind fun dev ↦
    reports_onLink (P := (Orderly · ⟨phase, 0, image.length⟩))
    (R := InOrder) (Q := fun r log ↦ InOrder log ∧
      (r = none → Orderly log ⟨phase, image.length, image.length⟩)) ?_
  exact reports_verifyChunks phase _ _ 0 image (Nat.le_refl _) (Nat.zero_add _)

theorem reports_readFlash : Triple (fun s ↦ Orderly s.ctx.2 ⟨phase, 0, len⟩)
    (onSession (readFlashCb (t.beside _) workerProgress len))
    (fun _ s ↦ Orderly s.ctx.2 ⟨phase, len, len⟩) fun _ s ↦ InOrder s.ctx.2 := by
  refine reports_onSession (P := (Orderly · ⟨phase, 0, len⟩)) (R := InOrder)
    (Q := fun _ ↦ (Orderly · ⟨phase, len, len⟩)) (fun _ h ↦ ⟨_, h⟩) ?_
  refine (orderly_fixes fixes_connectedDevice).bind fun dev ↦
    reports_onLink (P := (Orderly · ⟨phase, 0, len⟩))
    (R := InOrder) (Q := fun _ ↦ (Orderly · ⟨phase, len, len⟩)) ?_
  have hloop := @reports_readFlashChunks σ t len phase dev.flashAddress len 0 len (Nat.le_refl _)
    (Nat.zero_add _)
  exact hloop.conseq (fun _ h ↦ h) (fun _ _ h ↦ h.2 trivial) fun _ _ h ↦ h

theorem orderly_begin {R : Halt → WorkerState (σ × List Progress) → Prop} :
    Triple (fun s ↦ s.ctx.2 = []) (setPhase .connecting 0 0)
      (fun _ s ↦ Orderly s.ctx.2 .start) R := by
  apply Triple.modify
  intro s hs
  dsimp only
  rw [hs]
  exact .first

theorem orderly_setPhase {total : ℕ} (hlt : p.phase.index < phase.index ∧ phase ≠ .done)
    (htotal : total ≤ 0x10000) {R : Halt → WorkerState (σ × List Progress) → Prop} :
    Triple (fun s ↦ Orderly s.ctx.2 p) (setPhase phase 0 total)
      (fun _ s ↦ Orderly s.ctx.2 ⟨phase, 0, total⟩) R := by
  apply Triple.modify
  intro s hs
  exact .next hs (.inl ⟨hlt.1, hlt.2, rfl⟩) ⟨Nat.zero_le _, htotal⟩

theorem quiet_worker {m : WorkerM σ α} {m' : WorkerM (σ × List Progress) α}
    (h : ∀ r, Agrees (OverWorker (Beside r)) m m') :
    Triple (fun s ↦ Orderly s.ctx.2 p) m' (fun _ s ↦ Orderly s.ctx.2 p)
      (fun _ s ↦ InOrder s.ctx.2) :=
  ((fixes_worker h).triple (Orderly · p)).conseq (fun _ h ↦ h) (fun _ _ h ↦ h) fun _ _ h ↦ ⟨p, h⟩

theorem orderly_doConnect (allowErase : Bool) : Triple (fun s ↦ Orderly s.ctx.2 p)
    (doConnect (t.beside (List Progress)) env allowErase) (fun _ s ↦ Orderly s.ctx.2 p ∧ Live s)
    fun _ s ↦ InOrder s.ctx.2 := by
  intro s hs
  have hbeside (r : List Progress) : Agrees (OverWorker (Beside r)) (doConnect t env allowErase)
      (doConnect (t.beside (List Progress)) env allowErase) :=
        agrees_doConnect (alikeCalls_of_alike (t.alike_beside r)) allowErase
  have hquiet := quiet_worker hbeside s hs
  rcases hrun : doConnect (t.beside (List Progress)) env allowErase s with ⟨e | u, s'⟩ <;>
    rw [hrun] at hquiet
  · exact hquiet
  · exact ⟨hquiet, doConnect_live hrun⟩

theorem orderly_sessionDevice : Triple (fun s ↦ Orderly s.ctx.2 p ∧ Live s)
    (sessionDevice : WorkerM (σ × List Progress) UpdiDevice) (fun dev s ↦ Orderly s.ctx.2 p ∧
      dev ∈ deviceTable)
    fun _ s ↦ InOrder s.ctx.2 := by
  rintro s ⟨hs, hlive⟩
  obtain ⟨d, hd, hdev⟩ := hlive.device
  unfold sessionDevice
  rw [hdev]
  exact ⟨hs, hd⟩

theorem orderly_readImage (d : UpdiDevice) : Triple (fun s ↦ Orderly s.ctx.2 p)
    (readImage env d : WorkerM (σ × List Progress) (List UInt8))
    (fun image s ↦ Orderly s.ctx.2 p ∧ image.length ≤ d.flashSize) fun _ s ↦ InOrder s.ctx.2 := by
  intro s hs
  rw [readImage_run]
  cases himage : env.image d.flashSize with
  | none => exact ⟨p, hs⟩
  | some image => exact ⟨hs, image_le himage⟩

/-- The reports before the status `r` is kept over the disconnect. -/
def Settled (r : Except Halt β) (log : List Progress) : Prop :=
  InOrder log ∧ ∀ a, r = .ok a → AllDone log

theorem settled_verifyImage (image : List UInt8) :
    Triple (fun s ↦ Orderly s.ctx.2 ⟨phase, 0, image.length⟩)
    (attempt (verifyImageCb t image)) (fun r s ↦ Settled r s.ctx.2) fun _ s ↦ InOrder s.ctx.2 := by
  apply Triple.attempt
  have herror (e : Halt) (s : WorkerState (σ × List Progress)) (hs : InOrder s.ctx.2) :
      Settled (.error e : Except Halt Unit) s.ctx.2 := ⟨hs, fun _ h ↦ by cases h⟩
  refine Triple.bind ((reports_verifyFlash image).conseq (fun _ h ↦ h) (fun _ _ h ↦ h) herror)
    fun r ↦ ?_
  cases r with
  | none => exact .pure fun s hs ↦ ⟨hs.1, fun _ _ ↦ ⟨_, hs.2 rfl, rfl⟩⟩
  | some m =>
    have hupdate : Fixes (fun s : WorkerState (σ × List Progress) ↦ s.ctx.2)
        (updateApp fun a ↦ { a with verifyMismatch := some m }) := fun _ ↦ rfl
    refine Triple.bind (M := fun _ s ↦ InOrder s.ctx.2) ?_ fun _ ↦ .fail fun s hs ↦ herror _ s hs
    exact (hupdate.triple InOrder).conseq (fun _ h ↦ h.1) (fun _ _ h ↦ h) fun e s hs ↦ herror e s hs

theorem quiet_disconnect {P : List Progress → Prop} (hP : ∀ l, P l → InOrder l) :
    Triple (fun s ↦ P s.ctx.2)
    (onSession (UpdiSession.disconnect (t.beside (List Progress)))) (fun _ s ↦ P s.ctx.2) fun _ s ↦
      InOrder s.ctx.2 := by
  have hfix := @fixes_worker σ (List Progress) Unit _ _ fun r ↦
    (alikeCalls_of_alike (t.alike_beside r)).disconnect
  exact (hfix.triple P).conseq (fun _ h ↦ h) (fun _ _ h ↦ h) fun _ s h ↦ hP _ h

theorem settled_release (st : Except Halt β) : Triple (fun s ↦ Settled st s.ctx.2) (do
      onSession (UpdiSession.disconnect (t.beside (List Progress)))
      ofStatus st) (fun _ s ↦ AllDone s.ctx.2) fun _ s ↦ InOrder s.ctx.2 := by
  refine (quiet_disconnect fun _ h ↦ h.1).bind fun _ s hs ↦ ?_
  cases st with
  | ok a => exact hs.2 a rfl
  | error e => exact hs.1

end Worker

namespace Worker

variable {σ : Type} {t : UpdiTransport σ} {env : Env}

theorem settled_verify (image : List UInt8) {phase : UpdiPhase} :
    Triple (fun s ↦ Orderly s.ctx.2 ⟨phase, 0, image.length⟩)
    (do
      let st ← attempt (verifyImageCb t image)
      onSession (UpdiSession.disconnect (t.beside (List Progress)))
      ofStatus st) (fun _ s ↦ AllDone s.ctx.2) fun _ s ↦ InOrder s.ctx.2 :=
  (settled_verifyImage image).bind settled_release

theorem orderly_runOp (op : UpdiOp) :
    Triple (fun s ↦ s.ctx.2 = []) (runOpCb t env op) (fun _ s ↦ AllDone s.ctx.2)
    fun _ s ↦ InOrder s.ctx.2 := by
  have hquiet {m : WorkerM (σ × List Progress) Unit} {p : Progress} (hp : p.progDone = p.progTotal)
      (h : Triple (fun s ↦ Orderly s.ctx.2 p) m (fun _ s ↦ Orderly s.ctx.2 p) fun _ s ↦
        InOrder s.ctx.2) :
      Triple (fun s ↦ Orderly s.ctx.2 p) m (fun _ s ↦ AllDone s.ctx.2) fun _ s ↦ InOrder s.ctx.2 :=
    h.conseq (fun _ h ↦ h) (fun _ _ h ↦ ⟨p, h, hp⟩) fun _ _ h ↦ h
  have hsize {d : UpdiDevice} (hd : d ∈ deviceTable) : d.flashSize ≤ 0x10000 :=
    (UpdiDevice.wellFormed_of_mem hd).flashSize_le
  cases op with
  | connect =>
    exact orderly_begin.bind fun _ ↦
      hquiet rfl (quiet_worker fun r ↦
        agrees_runOp (alikeCalls_of_alike (t.alike_beside r)) .connect)
  | readFuses =>
    exact orderly_begin.bind fun _ ↦
      hquiet rfl (quiet_worker fun r ↦
        agrees_runOp (alikeCalls_of_alike (t.alike_beside r)) .readFuses)
  | chipErase =>
    refine orderly_begin.bind fun _ ↦ (orderly_doConnect true).bind fun _ s hs ↦ ?_
    have herase : Triple (fun s ↦ Orderly s.ctx.2 ⟨.erasing, 0, 0⟩)
        (attempt (onSession (UpdiSession.chipErase (t.beside (List Progress)))))
          (fun r s ↦ Settled r s.ctx.2)
        fun (_ : Halt) s ↦ InOrder s.ctx.2 := by
      apply Triple.attempt
      refine Triple.conseq (quiet_worker fun r ↦ (alikeCalls_of_alike (t.alike_beside r)).chipErase)
        (fun _ h ↦ h) (fun _ s hs ↦ ?_) fun e s hs ↦ ⟨hs, fun _ h ↦ by cases h⟩
      exact ⟨⟨_, hs⟩, fun _ _ ↦ ⟨_, hs, rfl⟩⟩
    exact (orderly_setPhase (by decide) (Nat.zero_le _)).bind
      (fun _ ↦ herase.bind settled_release) s hs.1
  | flash =>
    refine orderly_begin.bind fun _ ↦ (orderly_doConnect true).bind fun _ ↦
      orderly_sessionDevice.bind fun dev ↦ ?_
    refine .of_fact fun hdev ↦ .ite (fun _ ↦ .fail fun s hs ↦ ⟨_, hs⟩) fun _ ↦ ?_
    refine (orderly_setPhase (by decide) (Nat.zero_le _)).bind fun _ ↦ (orderly_readImage dev).bind
      fun image ↦ ?_
    refine .of_fact fun hlen ↦ (orderly_setPhase (by decide) (Nat.zero_le _)).bind fun _ ↦ ?_
    have htotal : image.length ≤ 0x10000 := Nat.le_trans hlen (hsize hdev)
    refine (quiet_worker fun r ↦ (alikeCalls_of_alike (t.alike_beside r)).chipErase).bind fun _ ↦ ?_
    refine (orderly_setPhase (by decide) htotal).bind fun _ ↦
      (reports_writeFlash image).bind fun _ ↦ ?_
    refine (orderly_setPhase ?_ htotal).bind fun _ ↦ settled_verify image
    exact ⟨Nat.lt_succ_self 3, by decide⟩
  | verify =>
    refine orderly_begin.bind fun _ ↦ (orderly_doConnect false).bind fun _ ↦
      orderly_sessionDevice.bind fun dev ↦ ?_
    refine .of_fact fun hdev ↦ .ite (fun _ ↦ .fail fun s hs ↦ ⟨_, hs⟩) fun _ ↦ ?_
    refine (orderly_setPhase (by decide) (Nat.zero_le _)).bind fun _ ↦ (orderly_readImage dev).bind
      fun image ↦ ?_
    refine .of_fact fun hlen ↦ (orderly_setPhase (by decide) ?_).bind fun _ ↦ settled_verify image
    exact Nat.le_trans hlen (hsize hdev)
  | dump =>
    refine orderly_begin.bind fun _ ↦ (orderly_doConnect false).bind fun _ ↦
      orderly_sessionDevice.bind fun dev ↦ ?_
    refine .of_fact fun hdev ↦ .ite (fun _ ↦ .fail fun s hs ↦ ⟨_, hs⟩) fun _ ↦ ?_
    refine (orderly_setPhase (by decide) (hsize hdev)).bind fun _ ↦
      reports_readFlash.bind fun buf ↦ ?_
    refine .ite (fun _ ↦ .fail fun s hs ↦ ⟨_, hs⟩) fun _ ↦ ?_
    rcases Hex.write buf 0 32 (hexFileSink env.storageWrite) ⟨[], 0, true⟩ with ⟨hs, sink⟩
    have hupdate : Fixes (fun s : WorkerState (σ × List Progress) ↦ s.ctx.2)
        (updateApp fun a ↦ { a with dumpFile := sink.file }) := fun _ ↦ rfl
    refine Triple.bind
      ((hupdate.triple (Orderly · ⟨.reading, dev.flashSize, dev.flashSize⟩)).conseq (fun _ h ↦ h)
      (fun _ _ h ↦ h) fun _ _ h ↦ ⟨_, h⟩) fun _ ↦ ?_
    refine (quiet_disconnect fun _ h ↦ ⟨_, h⟩).bind fun _ ↦ ?_
    exact .ite (fun _ ↦ .pure fun s hs ↦ ⟨_, hs, rfl⟩) fun _ ↦ .fail fun s hs ↦ ⟨_, hs⟩

/-- The thread does what its operation does, and at most one report more. -/
theorem workerThread_run (op : UpdiOp) (s : WorkerState (σ × List Progress)) : ∃ last,
    updiWorkerThread t env op s = ((runOpCb t env op s).1, { (runOpCb t env op s).2 with
      ctx := ((runOpCb t env op s).2.ctx.1, (runOpCb t env op s).2.ctx.2 ++ last) }) ∧
      (last = [] ∧ (runOpCb t env op s).1 ≠ .ok () ∨
        last = [{ current (runOpCb t env op s).2.ctx.2 with phase := .done }]) := by
  unfold updiWorkerThread
  rw [attempt_bind_run]
  rcases runOpCb t env op s with ⟨e | u, s'⟩
  · cases e with
    | status e => exact ⟨_, rfl, .inr rfl⟩
    | nullDevice | nullTransport => exact ⟨[], by rw [List.append_nil]; rfl, .inl ⟨rfl, by simp⟩⟩
  · exact ⟨_, rfl, .inr rfl⟩

/-- What the thread of an operation reports, oldest first. -/
def reports (t : UpdiTransport σ) (env : Env) (op : UpdiOp) (app : UpdiApp) (c : σ) :
    List Progress :=
  (updiWorkerThread t env op ⟨app, c, []⟩).2.ctx.2

theorem reports_ended (op : UpdiOp) (app : UpdiApp) (c : σ) :
    ∃ p, Ended (reports t env op app c) p ∧
    ((runOpCb t env op ⟨app, c, []⟩).1 = .ok () → p.phase = .done ∧ p.progDone = p.progTotal) := by
  have hrun := @orderly_runOp σ t env op ⟨app, c, []⟩ rfl
  obtain ⟨last, hthread, hlast⟩ := @workerThread_run σ t env op ⟨app, c, []⟩
  unfold reports
  rw [hthread]
  rcases hr : runOpCb t env op ⟨app, c, []⟩ with ⟨e | u, s'⟩ <;> rw [hr] at hrun hlast
  · obtain ⟨p, hp⟩ := hrun
    rcases hlast with ⟨rfl, -⟩ | rfl
    · exact ⟨p, by rw [List.append_nil]; exact .stopped hp, fun h ↦ by cases h⟩
    · exact ⟨_, by rw [hp.current_eq]; exact .done hp, fun h ↦ by cases h⟩
  · obtain ⟨p, hp, hall⟩ := hrun
    obtain rfl := hlast.resolve_left fun h ↦ h.2 rfl
    exact ⟨{ p with phase := .done }, by rw [hp.current_eq]; exact .done hp, fun _ ↦ ⟨rfl, hall⟩⟩

/-- The thread with its reports ends as the operation does without any, and leaves
the same app and the same transport behind. -/
theorem erases_workerThread (t : UpdiTransport σ) (env : Env) (op : UpdiOp)
    (app : UpdiApp) (c : σ) :
    (updiWorkerThread t env op ⟨app, c, []⟩).1 = (runOp t env op ⟨app, c⟩).1 ∧
      (updiWorkerThread t env op ⟨app, c, []⟩).2.app = (runOp t env op ⟨app, c⟩).2.app ∧
      (updiWorkerThread t env op ⟨app, c, []⟩).2.ctx.1 = (runOp t env op ⟨app, c⟩).2.ctx := by
  obtain ⟨hsame, happ, r, hctx⟩ := @erases_runOp σ t env op ⟨app, c⟩ ⟨app, c, []⟩ ⟨rfl, [], rfl⟩
  obtain ⟨last, hthread, -⟩ := @workerThread_run σ t env op ⟨app, c, []⟩
  rw [hthread]
  exact ⟨hsame.symm, happ.symm, congrArg Prod.fst hctx⟩

/-- At whatever two moments of an operation the screen reads the reports, it goes
back to no earlier phase and to no lower percentage, its numbers are exact and its
text fits. An operation that ends well ends with everything done. Reporting changes
neither the status nor the app nor what is said on the line. -/
theorem progress_never_goes_back (t : UpdiTransport σ) (env : Env) (op : UpdiOp) (app : UpdiApp)
    (c : σ) {earlier later : List Progress} (hlater : later <+: reports t env op app c)
    (hearlier : earlier <+: later) :
    (current later).percent = (current later).progDone * 100 / (current later).progTotal ∧
      (current later).percent ≤ 100 ∧ (current later).popupText.length + 1 ≤ 48 ∧
      ((current earlier).phase.index < (current later).phase.index ∨
        (current earlier).phase = (current later).phase ∧
          (current earlier).percent ≤ (current later).percent) ∧
      ((runOp t env op ⟨app, c⟩).1 = .ok () → (current (reports t env op app c)).phase = .done ∧
        (current (reports t env op app c)).progDone =
          (current (reports t env op app c)).progTotal) ∧
      (updiWorkerThread t env op ⟨app, c, []⟩).1 = (runOp t env op ⟨app, c⟩).1 ∧
      (updiWorkerThread t env op ⟨app, c, []⟩).2.app = (runOp t env op ⟨app, c⟩).2.app ∧
      (updiWorkerThread t env op ⟨app, c, []⟩).2.ctx.1 = (runOp t env op ⟨app, c⟩).2.ctx ∧
      (updiWorkerThread t.recorded env op ⟨app, (c, []), []⟩).2.ctx.1.2 =
        (runOp t.recorded env op ⟨app, c, []⟩).2.ctx.2 := by
  obtain ⟨p, hp, hdone⟩ := @reports_ended σ t env op app c
  obtain ⟨hsame, happ, hctx⟩ := erases_workerThread t env op app c
  obtain ⟨-, -, htalk⟩ := erases_workerThread t.recorded env op app (c, [])
  obtain ⟨hbound, -, hord⟩ := hp.earlier hlater
  refine ⟨hbound.percent_eq, hbound.percent_le, hbound.popupText_fits, ?_, fun hok ↦ ?_,
    hsame, happ, hctx, congrArg Prod.snd htalk⟩
  · by_cases hne : later = []
    · obtain rfl := List.prefix_nil.mp (hne ▸ hearlier)
      subst hne
      exact .inr ⟨rfl, Nat.le_refl _⟩
    · obtain ⟨hbound', hleads, -⟩ := (hord hne).earlier hearlier
      rcases hleads with hlt | ⟨hphase, htotal, hle⟩
      · exact .inl hlt
      · exact .inr ⟨hphase,
          Progress.Leads.percent_le (.inr ⟨hphase, htotal, hle⟩) hphase hbound' hbound⟩
  · have hrun := (@erases_runOp σ t env op ⟨app, c⟩ ⟨app, c, []⟩ ⟨rfl, [], rfl⟩).1
    rw [hp.current_eq]
    exact hdone (hrun.symm.trans hok)

def flashReports412 : List Progress :=
  reports (emuTransport .emulator) (steadyEnv (some applicationFile)) .flash
    UpdiApp.alloc program412

/-- From the start to the end of the flash of an application. -/
theorem attiny412_progress_goes_on :
    (current flashReports412).percent ≤ 100 ∧ (current flashReports412).popupText.length + 1 ≤ 48 ∧
      (updiWorkerThread (emuTransport .emulator) (steadyEnv (some applicationFile)) .flash
        ⟨UpdiApp.alloc, program412, []⟩).2.app =
          (runOp (emuTransport .emulator) (steadyEnv (some applicationFile)) .flash
            ⟨UpdiApp.alloc, program412⟩).2.app := by
  obtain ⟨-, hpercent, htext, -, -, -, happ, -, -⟩ :=
    progress_never_goes_back (emuTransport .emulator)
    (steadyEnv (some applicationFile)) .flash UpdiApp.alloc program412
      (List.prefix_refl flashReports412) List.nil_prefix
  exact ⟨hpercent, htext, happ⟩

end Worker

end UpdiProgrammer.Ui
