import UpdiProgrammer.HostTest.LinkRun

namespace UpdiProgrammer.HostTest

open Updi UpdiLink Library.Program UpdiEmu

inductive LinkCall
  | ldcs (address : UInt8)
  | ldByte (address : ℕ)
  | stByte (address : ℕ) (value : UInt8)
  | st16 (address : ℕ) (value : UInt16)
  | readSib (size : ℕ)
  | readData (address size : ℕ)
  | readDataWords (address words : ℕ)
  | writeData (address : ℕ) (data : List UInt8)
  | writeDataWords (address : ℕ) (data : List UInt8)
  deriving DecidableEq, Repr

namespace LinkCall

def run {σ : Type} (t : UpdiTransport σ) : LinkCall → LinkM σ Unit
  | .ldcs address => do let _ ← UpdiLink.ldcs t address
  | .ldByte address => do let _ ← UpdiLink.ldByte t address
  | .stByte address value => UpdiLink.stByte t address value
  | .st16 address value => UpdiLink.st16 t address value
  | .readSib size => do let _ ← UpdiLink.readSib t size
  | .readData address size => do let _ ← UpdiLink.readData t address size
  | .readDataWords address words => do let _ ← UpdiLink.readDataWords t address words
  | .writeData address data => UpdiLink.writeData t address data
  | .writeDataWords address data => UpdiLink.writeDataWords t address data

def runAll {σ : Type} (t : UpdiTransport σ) (calls : List LinkCall) (s : LinkState σ) :
    LinkState σ :=
  calls.foldl (fun s c ↦ (c.run t s).2) s

/-- The decoder is idle, no answer is left unread, no repeat is pending and
CTRLA.RSD is clear. -/
def AtRest (e : UpdiEmu) : Prop :=
  e.state = .idle ∧ e.rx = [] ∧ e.repeatNext = 0 ∧ e.mem.cs csCtrla &&& ctrlaRsd = 0

/-- After every call of the sequence that returns `UpdiOk`, the target is at rest. -/
def StaysAtRest (calls : List LinkCall) (s : LinkState UpdiEmu) : Prop :=
  ∀ before c after, calls = before ++ c :: after →
    let s := runAll (emuTransport .rsd) before s
    (c.run (emuTransport .rsd) s).1 = .ok () → AtRest (c.run (emuTransport .rsd) s).2.ctx

/-- The call asks for at least as many bytes as the target answers with. -/
def ReadsWhole : LinkCall → Prop
  | .readSib size => 8 ≤ size
  | .readData _ size => 1 ≤ size
  | .readDataWords _ words => 1 ≤ words
  | _ => True

instance (c : LinkCall) : Decidable c.ReadsWhole := by
  cases c <;> unfold ReadsWhole <;> infer_instance

variable {a24 : Bool} {m : EmuMem} {s : LinkState UpdiEmu}

theorem AtRest.inStep (h : AtRest s.ctx) : InStep (s.link.addressBytes == 3) s.ctx.mem s :=
  ⟨rfl, rfl, h.1, h.2.1, h.2.2.1⟩

theorem atRest_of_returns {α : Type} {x : LinkM UpdiEmu α} {a : α}
    (h : Returns x s a (InStep a24 m)) (hc : m.cs csCtrla &&& ctrlaRsd = 0) :
    AtRest (x s).2.ctx := by
  obtain ⟨s', hx, -, ht⟩ := h
  rw [hx]
  refine ⟨ht.state, ht.rx, ht.repeatNext, ?_⟩
  rwa [ht.mem]

theorem rsd_store (h : m.cs csCtrla &&& ctrlaRsd = 0) :
    AckPolicy.rsd.store (m.cs csCtrla) = true := beq_iff_eq.mpr h

theorem AtRest.readSib (h : AtRest s.ctx) {size : ℕ} (h8 : 8 ≤ size) :
    AtRest (UpdiLink.readSib (emuTransport .rsd) size s).2.ctx := by
  have hr := readSib_returns (P := .rsd) h.inStep (by omega : 1 ≤ size)
  have hlen : sibLength size ≤ size := by
    unfold sibLength
    split_ifs <;> omega
  rw [List.drop_eq_nil_of_le (by rw [sibBytes_length]; exact hlen)] at hr
  exact atRest_of_returns hr h.2.2.2

theorem AtRest.readData (h : AtRest s.ctx) (address : ℕ) {size : ℕ} (h1 : 1 ≤ size) :
    AtRest (UpdiLink.readData (emuTransport .rsd) address size s).2.ctx := by
  by_cases hs : size ≤ maxRepeatSize
  · exact atRest_of_returns (readData_returns (rsd_store h.2.2.2) h.inStep address h1 hs) h.2.2.2
  · rw [UpdiLink.readData, if_pos (by omega)]
    exact h

theorem AtRest.readDataWords (h : AtRest s.ctx) (address : ℕ) {words : ℕ} (h1 : 1 ≤ words) :
    AtRest (UpdiLink.readDataWords (emuTransport .rsd) address words s).2.ctx := by
  by_cases hw : words ≤ maxRepeatSize / 2
  · exact atRest_of_returns (readDataWords_returns (rsd_store h.2.2.2) h.inStep address h1 hw)
      h.2.2.2
  · rw [UpdiLink.readDataWords, if_pos (by omega)]
    exact h

theorem AtRest.writeData (h : AtRest s.ctx) (address : ℕ) (data : List UInt8) :
    AtRest (UpdiLink.writeData (emuTransport .rsd) address data s).2.ctx := by
  by_cases h0 : data.length = 0
  · obtain rfl : data = [] := List.length_eq_zero_iff.mp h0
    exact h
  · obtain ⟨m', hcs, -, hr⟩ := writeData_returns (rsd_store h.2.2.2) h.inStep address h0
    exact atRest_of_returns hr (by rw [hcs]; exact h.2.2.2)

theorem writeDataWords_param {σ : Type} (t : UpdiTransport σ) (address : ℕ) {data : List UInt8}
    (h : data.length = 0 ∨ data.length % 2 = 1 ∨ maxRepeatSize * 2 < data.length) :
    UpdiLink.writeDataWords t address data = Prog.fail .param := by
  unfold UpdiLink.writeDataWords
  by_cases h0 : data.length = 0 ∨ data.length % 2 = 1
  · rw [if_pos h0]
  · have hmax : maxRepeatSize * 2 < data.length := by omega
    have hm : maxRepeatSize = 256 := rfl
    rw [if_neg h0]
    split
    · simp only [List.length_cons, List.length_nil] at hmax
      omega
    · rw [if_pos hmax]

theorem AtRest.writeDataWords (h : AtRest s.ctx) (address : ℕ) (data : List UInt8) :
    AtRest (UpdiLink.writeDataWords (emuTransport .rsd) address data s).2.ctx := by
  by_cases hbad : data.length = 0 ∨ data.length % 2 = 1 ∨ maxRepeatSize * 2 < data.length
  · rw [writeDataWords_param _ _ hbad]
    exact h
  · obtain ⟨m', hm', hr⟩ := writeDataWords_returns (rsd_store h.2.2.2) h.inStep address
      (by omega) (by omega) (by omega : data.length ≤ maxRepeatSize * 2)
    refine atRest_of_returns hr ?_
    rcases hm' with rfl | rfl
    · rw [writeAll_cs]
      exact h.2.2.2
    · rw [setCs_self]
      decide

/-- A call that fails from its arguments alone has sent nothing, and any
other call runs its exchange to the end. -/
theorem AtRest.run (h : AtRest s.ctx) {c : LinkCall} (hc : c.ReadsWhole) :
    AtRest (c.run (emuTransport .rsd) s).2.ctx := by
  have hP := rsd_store h.2.2.2
  cases c with
  | ldcs address =>
    exact atRest_of_returns ((ldcs_returns h.inStep address).bind fun s h ↦ .pure h) h.2.2.2
  | ldByte address =>
    exact atRest_of_returns ((ldByte_returns h.inStep address).bind fun s h ↦ .pure h) h.2.2.2
  | stByte address value =>
    exact atRest_of_returns (stByte_returns hP h.inStep address value)
      (by rw [memWrite_cs]; exact h.2.2.2)
  | st16 address value =>
    exact atRest_of_returns (st16_returns hP h.inStep address value)
      (by rw [writeAll_cs]; exact h.2.2.2)
  | readSib size =>
    have hr := h.readSib hc
    rwa [← Prog.drop_run] at hr
  | readData address size =>
    have hr := h.readData address hc
    rwa [← Prog.drop_run] at hr
  | readDataWords address words =>
    have hr := h.readDataWords address hc
    rwa [← Prog.drop_run] at hr
  | writeData address data => exact h.writeData address data
  | writeDataWords address data => exact h.writeDataWords address data

theorem runAll_atRest {calls : List LinkCall} (hc : ∀ c ∈ calls, c.ReadsWhole) (h : AtRest s.ctx) :
    AtRest (runAll (emuTransport .rsd) calls s).ctx := by
  induction calls generalizing s with
  | nil => exact h
  | cons c calls ih =>
    exact ih (fun c' hc' ↦ hc c' (List.mem_cons_of_mem _ hc')) (h.run (hc c List.mem_cons_self))

/-- The two sides stay in step over every sequence of calls that read
whole answers. -/
theorem staysAtRest_of_readsWhole {calls : List LinkCall} (hc : ∀ c ∈ calls, c.ReadsWhole)
    (h : AtRest s.ctx) : StaysAtRest calls s := by
  intro before c after hcalls s' _
  have hbefore : ∀ c' ∈ before, c'.ReadsWhole := fun c' hc' ↦
    hc c' (hcalls ▸ List.mem_append_left _ hc')
  have hcall : c.ReadsWhole := hc c (hcalls ▸ List.mem_append_right _ List.mem_cons_self)
  exact (runAll_atRest hbefore h).run hcall

theorem staysAtRest_write_read : StaysAtRest
    [.readSib 16, .writeDataWords 0x8000 [1, 2, 3, 4], .readData 0x8000 4] freshLink :=
  staysAtRest_of_readsWhole (by decide) ⟨rfl, rfl, rfl, rfl⟩

/-- A block read of no bytes still makes the target answer with one. -/
theorem readData_zero_not_staysAtRest :
    AtRest freshLink.ctx ∧ ¬StaysAtRest [.readData 0x8000 0] freshLink := by
  refine ⟨⟨rfl, rfl, rfl, rfl⟩, fun h ↦ ?_⟩
  obtain ⟨-, hrx, -, -⟩ := h [] (.readData 0x8000 0) [] rfl rfl
  exact absurd hrx (by decide)

end LinkCall

end UpdiProgrammer.HostTest
