import UpdiProgrammer.HostTest.LinkRun
import UpdiProgrammer.Library.Memory

namespace UpdiProgrammer.HostTest

open Updi UpdiLink Library.Program Library.Memory UpdiEmu

inductive Cell
  | flash (i : ℕ)
  | io (i : ℕ)
  deriving DecidableEq, Repr

namespace EmuMem

def cellAt (m : EmuMem) (addr : ℕ) : Option Cell :=
  if m.InFlash addr then some (.flash (addr - m.flashBase))
  else if InIo addr then some (.io (addr - emuIoBase))
  else none

def content (m : EmuMem) : Cell → UInt8
  | .flash i => m.flash i
  | .io i => m.io i

/-- The range lies in the memories, clear of the NVMCTRL registers that
the emulator does not treat as plain cells. -/
def Plain (m : EmuMem) (address n : ℕ) : Prop :=
  ∀ i < n, (m.cellAt (address + i)).isSome ∧ address + i ≠ m.nvmctrlBase + m.ctrlaOffset ∧
    address + i ≠ m.nvmctrlBase + m.statusOffset

instance (m : EmuMem) (address n : ℕ) : Decidable (m.Plain address n) := by
  unfold Plain
  infer_instance

theorem cellAt_eq_some {m : EmuMem} {addr : ℕ} {c : Cell} : m.cellAt addr = some c ↔
    (m.InFlash addr ∧ c = .flash (addr - m.flashBase)) ∨
      (¬m.InFlash addr ∧ InIo addr ∧ c = .io (addr - emuIoBase)) := by
  unfold cellAt
  split_ifs with hf hi
  · simp only [Option.some.injEq, hf, true_and, not_true, false_and, or_false, eq_comm]
  · simp only [Option.some.injEq, hf, hi, not_false_iff, true_and, false_and, false_or, eq_comm]
  · simp only [hf, hi, false_and, and_false, or_self]

theorem cellAt_oneToOne (m : EmuMem) : OneToOne m.cellAt := by
  intro a a' c h h'
  rw [cellAt_eq_some] at h h'
  rcases h with ⟨⟨hb, -⟩, rfl⟩ | ⟨-, ⟨hb, -⟩, rfl⟩ <;>
    rcases h' with ⟨⟨hb', -⟩, h'⟩ | ⟨-, ⟨hb', -⟩, h'⟩ <;>
    simp only [Cell.flash.injEq, Cell.io.injEq, reduceCtorEq] at h' <;> omega

theorem memRead_of_plain {m : EmuMem} {addr : ℕ} {c : Cell} (hc : m.cellAt addr = some c)
    (hs : addr ≠ m.nvmctrlBase + m.statusOffset) : m.memRead addr = m.content c := by
  unfold memRead
  rw [if_neg hs]
  rcases cellAt_eq_some.mp hc with ⟨hf, rfl⟩ | ⟨hf, hi, rfl⟩
  · rw [if_pos hf]
    rfl
  · rw [if_neg hf, if_pos hi]
    rfl

theorem content_setFlash (m : EmuMem) (addr : ℕ) (b : UInt8) :
    (m.setFlash addr b).content = Function.update m.content (.flash (addr - m.flashBase)) b := by
  funext c
  cases c with
  | flash i => simp only [content, setFlash, Function.update_apply, Cell.flash.injEq]
  | io i => simp only [content, setFlash, Function.update_apply, reduceCtorEq, if_false]

theorem content_setIo (m : EmuMem) {addr : ℕ} (hi : InIo addr) (b : UInt8) :
    (m.setIo addr b).content = Function.update m.content (.io (addr - emuIoBase)) b := by
  funext c
  rw [setIo, if_pos hi]
  cases c with
  | flash i => simp only [content, Function.update_apply, reduceCtorEq, if_false]
  | io i => simp only [content, Function.update_apply, Cell.io.injEq]

theorem memWrite_of_plain {m : EmuMem} {addr : ℕ} {c : Cell} (hc : m.cellAt addr = some c)
    (ha : addr ≠ m.nvmctrlBase + m.ctrlaOffset) (b : UInt8) :
    (m.memWrite addr b).content = Function.update m.content c b := by
  unfold memWrite
  rcases cellAt_eq_some.mp hc with ⟨hf, rfl⟩ | ⟨hf, hi, rfl⟩
  · rw [if_pos hf, content_setFlash]
  · rw [if_neg hf, if_neg ha, content_setIo m hi]

/-- The parts of the memory that no store changes. -/
def SameLayout (m m' : EmuMem) : Prop :=
  m'.flashBase = m.flashBase ∧ m'.nvmctrlBase = m.nvmctrlBase ∧ m'.ctrlaOffset = m.ctrlaOffset ∧
    m'.statusOffset = m.statusOffset

theorem sameLayout_memWrite (m : EmuMem) (addr : ℕ) (b : UInt8) :
    SameLayout m (m.memWrite addr b) := by
  unfold SameLayout memWrite eraseEffect fuseEffect setIo setFlash
  split_ifs <;> exact ⟨rfl, rfl, rfl, rfl⟩

theorem SameLayout.cellAt {m m' : EmuMem} (h : SameLayout m m') : m'.cellAt = m.cellAt := by
  funext addr
  simp only [EmuMem.cellAt, InFlash, h.1]

theorem writeAll_stored {m : EmuMem} {address : ℕ} {data : List UInt8}
    (h : m.Plain address data.length) :
    Stored m.cellAt address data m.content (m.writeAll address data).content := by
  induction data generalizing m address with
  | nil => exact .nil
  | cons b data ih =>
    obtain ⟨hc, ha, -⟩ := h 0 (Nat.zero_lt_succ _)
    obtain ⟨c, hc⟩ := Option.isSome_iff_exists.mp hc
    rw [Nat.add_zero] at hc ha
    have hl := sameLayout_memWrite m address b
    have hrest : (m.memWrite address b).Plain (address + 1) data.length := by
      intro i hi
      obtain ⟨hc', ha', hs'⟩ := h (i + 1) (Nat.add_lt_add_right hi 1)
      rw [hl.cellAt, hl.2.1, hl.2.2.1, hl.2.2.2, Nat.add_assoc, Nat.add_comm 1]
      exact ⟨hc', ha', hs'⟩
    have hstored := ih hrest
    rw [hl.cellAt, memWrite_of_plain hc ha b] at hstored
    exact .cons m.cellAt_oneToOne hc hstored

theorem cells_holds {m : EmuMem} {address n : ℕ} (h : m.Plain address n) :
    Holds m.cellAt address (cells m address n) m.content := by
  intro i hi c hc
  rw [cells_length] at hi
  rw [← memRead_of_plain hc (h i hi).2.2]
  simp only [cells, List.getElem_map, List.getElem_range]

end EmuMem

variable {a24 : Bool} {m : EmuMem} {s : LinkState UpdiEmu} {address : ℕ}

/-- A block transfer of a link in step with its target, over a plain range
that the address width can name. -/
structure Transfer (a24 : Bool) (m : EmuMem) (address n : ℕ) : Prop where
  plain : m.Plain address n
  fits : address + n ≤ addressSpace a24

theorem writeData_stores (h : InStep a24 m s) {data : List UInt8} (h0 : data.length ≠ 0)
    (ht : Transfer a24 m address data.length) :
    ∃ m', Stored m.cellAt address data m.content m'.content ∧
      Returns (writeData (emuTransport .emulator) address data) s () (InStep a24 m') := by
  obtain ⟨m', -, hm', hr⟩ := writeData_returns (P := .emulator) rfl h address h0
  obtain rfl := hm' ht.fits
  exact ⟨_, m.writeAll_stored ht.plain, hr⟩

theorem writeDataWords_stores (h : InStep a24 m s) {data : List UInt8} (h0 : data.length ≠ 0)
    (h2 : data.length % 2 = 0) (hmax : data.length ≤ 512)
    (ht : Transfer a24 m address data.length) :
    ∃ m', Stored m.cellAt address data m.content m'.content ∧
      Returns (writeDataWords (emuTransport .emulator) address data) s () (InStep a24 m') := by
  obtain ⟨m', hm', hr⟩ := writeDataWords_returns (P := .emulator) rfl h address h0 h2 hmax
  have hfits := ht.fits
  have hstored := m.writeAll_stored ht.plain
  rw [wireAddress_of_lt (by omega)] at hm'
  refine ⟨m', ?_, hr⟩
  rcases hm' with rfl | rfl
  · exact hstored
  · exact hstored

theorem readData_holds (h : InStep a24 m s) {n : ℕ} (h1 : 1 ≤ n) (hmax : n ≤ 256)
    (ht : Transfer a24 m address n) :
    ∃ bytes, bytes.length = n ∧ Holds m.cellAt address bytes m.content ∧
      Returns (readData (emuTransport .emulator) address n) s bytes (InStep a24 m) := by
  have hr := readData_returns (P := .emulator) rfl h address h1 hmax
  have hfits := ht.fits
  rw [wireAddress_of_lt (by omega)] at hr
  exact ⟨_, cells_length m address n, m.cells_holds ht.plain, hr⟩

theorem readDataWords_holds (h : InStep a24 m s) {words : ℕ} (h1 : 1 ≤ words) (hmax : words ≤ 128)
    (ht : Transfer a24 m address (2 * words)) :
    ∃ bytes, bytes.length = 2 * words ∧ Holds m.cellAt address bytes m.content ∧
      Returns (readDataWords (emuTransport .emulator) address words) s bytes (InStep a24 m) := by
  have hr := readDataWords_returns (P := .emulator) rfl h address h1 hmax
  have hfits := ht.fits
  rw [wireAddress_of_lt (by omega)] at hr
  exact ⟨_, cells_length m address _, m.cells_holds ht.plain, hr⟩

/-- Each of the block transfers has the effect its name promises, and the
byte and word paths cannot be told apart by it. -/
theorem block_transfers (h : InStep a24 m s) {n : ℕ} (ht : Transfer a24 m address n) :
    (∀ data : List UInt8, data.length = n → 1 ≤ n →
      ∃ m', Stored m.cellAt address data m.content m'.content ∧
        Returns (writeData (emuTransport .emulator) address data) s () (InStep a24 m')) ∧
    (∀ data : List UInt8, data.length = n → n % 2 = 0 → 2 ≤ n → n ≤ 512 →
      ∃ m', Stored m.cellAt address data m.content m'.content ∧
        Returns (writeDataWords (emuTransport .emulator) address data) s () (InStep a24 m')) ∧
    (1 ≤ n → n ≤ 256 →
      ∃ bytes, bytes.length = n ∧ Holds m.cellAt address bytes m.content ∧
        Returns (readData (emuTransport .emulator) address n) s bytes (InStep a24 m)) ∧
    (∀ words, n = 2 * words → 1 ≤ words → words ≤ 128 →
      ∃ bytes, bytes.length = n ∧ Holds m.cellAt address bytes m.content ∧
        Returns (readDataWords (emuTransport .emulator) address words) s bytes (InStep a24 m)) ∧
    (∀ data : List UInt8, data.length = n → n % 2 = 0 → 2 ≤ n → n ≤ 512 →
      (writeData (emuTransport .emulator) address data s).2.ctx.mem.content =
        (writeDataWords (emuTransport .emulator) address data s).2.ctx.mem.content) ∧
    (∀ words, n = 2 * words → 1 ≤ words → words ≤ 128 →
      (readData (emuTransport .emulator) address n s).1 =
        (readDataWords (emuTransport .emulator) address words s).1) := by
  refine ⟨?_, ?_, fun h1 hmax ↦ readData_holds h h1 hmax ht, ?_, ?_, ?_⟩
  · rintro data rfl h1
    exact writeData_stores h (by omega) ht
  · rintro data rfl h2 h0 hmax
    exact writeDataWords_stores h (by omega) h2 hmax ht
  · rintro words rfl h1 hmax
    exact readDataWords_holds h h1 hmax ht
  · rintro data rfl h2 h0 hmax
    obtain ⟨m₁, hs₁, s₁, hr₁, -, he₁⟩ := writeData_stores h (by omega) ht
    obtain ⟨m₂, hs₂, s₂, hr₂, -, he₂⟩ := writeDataWords_stores h (by omega) h2 hmax ht
    rw [hr₁, hr₂, he₁.mem, he₂.mem]
    exact hs₁.unique hs₂
  · rintro words rfl h1 hmax
    obtain ⟨b₁, hl₁, hh₁, s₁, hr₁, -⟩ := readData_holds h (by omega) (by omega) ht
    obtain ⟨b₂, hl₂, hh₂, s₂, hr₂, -⟩ := readDataWords_holds h h1 hmax ht
    rw [hr₁, hr₂]
    refine congrArg Except.ok (hh₁.unique ?_ (hl₁.trans hl₂.symm) hh₂)
    intro i hi
    exact (ht.plain i (hl₁ ▸ hi)).1

theorem freshLink_writes_four_bytes :
    ∃ m', Stored freshLink.ctx.mem.cellAt 0x8000 [1, 2, 3, 4] freshLink.ctx.mem.content m'.content ∧
      Returns (writeData (emuTransport .emulator) 0x8000 [1, 2, 3, 4]) freshLink ()
        (InStep false m') :=
  (block_transfers freshLink_inStep ⟨by decide, by decide⟩).1 [1, 2, 3, 4] rfl (by decide)

end UpdiProgrammer.HostTest
