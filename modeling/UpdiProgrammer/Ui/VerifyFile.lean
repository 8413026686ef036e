import UpdiProgrammer.Ui.DumpFile
import UpdiProgrammer.HostTest.Programming

namespace UpdiProgrammer.Ui

open Updi UpdiLink UpdiNvm UpdiSession Hex IntelHexImage Library.Program Prog Library.Memory

/-- The value that an accepted line gives to the flash offset `i`. -/
noncomputable def lineDefines (img : IntelHexImage) (line : List UInt8) (i : ℕ) : Option UInt8 :=
  match lineRecord line with
  | some r => if r.type = ihexTypeData ∧ img.offset r ≤ i then r.data[i - img.offset r]? else none
  | none => none

/-- The value that the last of the accepted lines to define `i` gives it. -/
noncomputable def definedBy (img : IntelHexImage) : List (List UInt8) → ℕ → Option UInt8
  | [], _ => none
  | line :: lines, i => (definedBy (img.parseLine 32 line).2 lines i).or (lineDefines img line i)

/-- The end of the data record in a line, or zero. -/
noncomputable def lineEnd (img : IntelHexImage) (line : List UInt8) : ℕ :=
  match lineRecord line with
  | some r => if r.type = ihexTypeData then img.endOffset 32 r else 0
  | none => 0

noncomputable def fileEnd (img : IntelHexImage) : List (List UInt8) → ℕ
  | [] => 0
  | line :: lines => max (lineEnd img line) (fileEnd (img.parseLine 32 line).2 lines)

variable {img : IntelHexImage} {line : List UInt8} {lines : List (List UInt8)}

theorem parseLine_defines (h : (img.parseLine 32 line).1 = .ok) (i : ℕ) :
    (img.parseLine 32 line).2.data i = (lineDefines img line i).getD (img.data i) := by
  unfold parseLine at h ⊢
  unfold lineDefines
  rw [lineRecord_eq]
  cases hp : parseRecord line with
  | error e =>
    rw [hp] at h
    rfl
  | ok r =>
    cases r with
    | none => rfl
    | some r =>
      rw [hp] at h
      dsimp only [record_of_ok] at h ⊢
      unfold applyRecord at h ⊢
      split_ifs at h ⊢ with htype hin hle
      · change overwrite img.data (img.offset r) r.data i = _
        obtain ⟨k, rfl⟩ := Nat.exists_eq_add_of_le hle.2
        rw [Nat.add_sub_cancel_left]
        by_cases hk : k < r.data.length
        · rw [overwrite_of_lt hk, List.getElem?_eq_getElem hk, Option.getD_some]
        · rw [overwrite_of_not (by omega), List.getElem?_eq_none (Nat.le_of_not_lt hk),
            Option.getD_none]
      · have hlow : ¬img.offset r ≤ i := fun hle' ↦ hle ⟨htype, hle'⟩
        exact overwrite_of_not fun hin ↦ hlow hin.1
      all_goals first | rfl | (rename_i hle; exact absurd hle.1 htype)

theorem parseLines_defines (h : img.Accepts 32 lines) (i : ℕ) :
    (img.parseLines 32 lines).data i = (definedBy img lines i).getD (img.data i) := by
  induction lines generalizing img with
  | nil => rfl
  | cons line lines ih =>
    obtain ⟨hline, hrest⟩ := accepts_cons.mp h
    have hstep :
        img.parseLines 32 (line :: lines) = (img.parseLine 32 line).2.parseLines 32 lines := rfl
    rw [hstep, ih hrest, parseLine_defines hline, definedBy]
    cases definedBy (img.parseLine 32 line).2 lines i <;> rfl

def Ranged (img : IntelHexImage) : Prop := img.any = false → img.maxOffset = 0

theorem Ranged.unmoved {img' : IntelHexImage} (hr : Ranged img) (hany : img'.any = img.any)
    (hmax : img'.maxOffset = img.maxOffset) :
    Ranged img' ∧ img'.maxOffset = max img.maxOffset 0 := by
  refine ⟨fun h ↦ ?_, hmax.trans (Nat.max_zero _).symm⟩
  rw [hmax]
  exact hr (hany ▸ h)

theorem parseLine_end (hr : Ranged img) (h : (img.parseLine 32 line).1 = .ok) :
    Ranged (img.parseLine 32 line).2 ∧
      (img.parseLine 32 line).2.maxOffset = max img.maxOffset (lineEnd img line) := by
  unfold parseLine at h ⊢
  unfold lineEnd
  rw [lineRecord_eq]
  cases hp : parseRecord line with
  | error e => exact hr.unmoved rfl rfl
  | ok r =>
    cases r with
    | none => exact hr.unmoved rfl rfl
    | some r =>
      rw [hp] at h
      dsimp only [record_of_ok] at h ⊢
      unfold applyRecord at h ⊢
      split_ifs at h ⊢ with htype hin
      · refine ⟨fun hany ↦ (by cases hany), ?_⟩
        unfold storeRecord
        dsimp only
        cases hany : img.any with
        | false =>
          rw [hr hany, Nat.zero_max]
          rfl
        | true =>
          rw [if_pos rfl]
          split_ifs <;> omega
      all_goals exact hr.unmoved rfl rfl

theorem parseLines_end (hr : Ranged img) (h : img.Accepts 32 lines) :
    (img.parseLines 32 lines).maxOffset = max img.maxOffset (fileEnd img lines) := by
  induction lines generalizing img with
  | nil => exact (Nat.max_zero _).symm
  | cons line lines ih =>
    obtain ⟨hline, hrest⟩ := accepts_cons.mp h
    obtain ⟨hr', hmax⟩ := parseLine_end hr hline
    have hstep :
        img.parseLines 32 (line :: lines) = (img.parseLine 32 line).2.parseLines 32 lines := rfl
    rw [hstep, ih hr' hrest, hmax, fileEnd, Nat.max_assoc]

theorem lineEnd_le (h : (img.parseLine 32 line).1 = .ok) :
    lineEnd img line ≤ img.capacity ∧ (img.parseLine 32 line).2.capacity = img.capacity := by
  unfold parseLine at h ⊢
  unfold lineEnd
  rw [lineRecord_eq]
  cases hp : parseRecord line with
  | error e => exact ⟨Nat.zero_le _, rfl⟩
  | ok r =>
    cases r with
    | none => exact ⟨Nat.zero_le _, rfl⟩
    | some r =>
      rw [hp] at h
      dsimp only [record_of_ok] at h ⊢
      unfold applyRecord at h ⊢
      split_ifs at h ⊢ with htype hin
      · exact ⟨Nat.le_of_not_lt hin.2, rfl⟩
      all_goals exact ⟨Nat.zero_le _, rfl⟩

theorem fileEnd_le (h : img.Accepts 32 lines) : fileEnd img lines ≤ img.capacity := by
  induction lines generalizing img with
  | nil => exact Nat.zero_le _
  | cons line lines ih =>
    obtain ⟨hline, hrest⟩ := accepts_cons.mp h
    obtain ⟨hend, hcap⟩ := lineEnd_le hline
    have hle := ih hrest
    rw [hcap] at hle
    exact Nat.max_le.mpr ⟨hend, hle⟩

section Faithful

variable {σ : Type} (t : UpdiTransport σ) (d : UpdiDevice) (flash : ℕ → UInt8)

/-- The link reads the flash content `flash` of a part of type `d`, as long as
its state stays in `I`, which no read makes it leave. -/
def ReadsFaithfully (I : LinkState σ → Prop) : Prop :=
  ∀ s off len, I s → off + len ≤ d.flashSize →
    ∃ s', UpdiNvm.read t (d.flashAddress + off) len s =
      (.ok ((List.range' off len).map flash), s') ∧ I s'

variable {t d flash}

/-- The first offset from `off` on, of `n`, at which two memories differ. -/
def firstMismatch (g f : ℕ → UInt8) (off n : ℕ) : Option UpdiVerifyMismatch :=
  ((List.range' off n).find? fun k ↦ f k != g k).map fun k ↦ ⟨k, g k, f k⟩

theorem firstMismatch_eq_none {g f : ℕ → UInt8} {off n : ℕ} (h : firstMismatch g f off n = none) :
    ∀ i, off ≤ i → i < off + n → f i = g i := by
  intro i hlow hhigh
  have hnone := List.find?_range'_eq_none.mp (Option.map_eq_none_iff.mp h) i hlow (by omega)
  simpa using hnone

theorem firstMismatch_eq_some {g f : ℕ → UInt8} {off n : ℕ} {m : UpdiVerifyMismatch}
    (h : firstMismatch g f off n = some m) :
    ∃ k, off ≤ k ∧ k < off + n ∧ m = ⟨k, g k, f k⟩ ∧ f k ≠ g k ∧
      ∀ i, off ≤ i → i < k → f i = g i := by
  obtain ⟨k, hfind, rfl⟩ := Option.map_eq_some_iff.mp h
  obtain ⟨hk, hmem, hfirst⟩ := List.find?_range'_eq_some.mp hfind
  obtain ⟨hlow, hhigh⟩ := List.mem_range'_1.mp hmem
  refine ⟨k, hlow, hhigh, rfl, bne_iff_ne.mp hk, fun i hi hik ↦ ?_⟩
  simpa using hfirst i hi hik

theorem firstMismatch_append (g f : ℕ → UInt8) (off m n : ℕ) :
    firstMismatch g f off (m + n) = (firstMismatch g f off m).or
      (firstMismatch g f (off + m) n) := by
  unfold firstMismatch
  rw [← List.range'_append_1, List.find?_append]
  cases (List.range' off m).find? fun k ↦ f k != g k <;> rfl

theorem firstDifference_range (g f : ℕ → UInt8) (off m n : ℕ) :
    firstDifference off ((List.range' off (m + n)).map g) ((List.range' off m).map f) =
      firstMismatch g f off m := by
  induction m generalizing off with
  | zero =>
    rw [List.range'_zero, List.map_nil]
    cases (List.range' off (0 + n)).map g <;> rfl
  | succ m ih =>
    rw [Nat.succ_add, List.range'_succ, List.range'_succ, List.map_cons, List.map_cons,
      firstDifference, ih]
    unfold firstMismatch
    rw [List.range'_succ]
    by_cases h : f off = g off
    · have hsame : (f off != g off) = false := by rw [h, bne_self_eq_false]
      rw [if_neg (not_not.mpr h), List.find?_cons, hsame]
    · have hdiffer : (f off != g off) = true := bne_iff_ne.mpr h
      rw [if_pos h, List.find?_cons, hdiffer]
      rfl

theorem verifyChunks_faithful {I : LinkState σ → Prop} (hflash : ReadsFaithfully t d flash I)
    (g : ℕ → UInt8) (fuel off n : ℕ) (hfuel : n ≤ fuel) (hfit : off + n ≤ d.flashSize)
    {s : LinkState σ} (hs : I s) :
    ∃ s', verifyChunks t d.flashAddress fuel off ((List.range' off n).map g) s =
      (.ok (firstMismatch g flash off n), s') ∧ I s' := by
  induction fuel generalizing off n s with
  | zero =>
    obtain rfl := Nat.le_zero.mp hfuel
    exact ⟨s, rfl, hs⟩
  | succ fuel ih =>
    rw [verifyChunks, List.length_map, List.length_range']
    by_cases hn : n = 0
    · subst hn
      exact ⟨s, rfl, hs⟩
    have hpos : 0 < readChunk := by decide
    obtain ⟨k, hk⟩ := Nat.exists_eq_add_of_le (Nat.min_le_left n readChunk)
    have hchunk : 0 < min n readChunk := Nat.lt_min.mpr ⟨Nat.pos_of_ne_zero hn, hpos⟩
    generalize min n readChunk = m at hk hchunk ⊢
    subst hk
    obtain ⟨s₁, hread, hs₁⟩ := hflash s off m hs (by omega)
    rw [if_neg hn, bind_ok hread, firstDifference_range]
    have hdrop : ((List.range' off (m + k)).map g).drop m = (List.range' (off + m) k).map g := by
      rw [← List.map_drop, List.drop_range', Nat.mul_one, Nat.add_sub_cancel_left]
    rw [firstMismatch_append, hdrop]
    cases firstMismatch g flash off m with
    | some found => exact ⟨s₁, rfl, hs₁⟩
    | none => exact ih (off + m) k (by omega) (by omega) hs₁

end Faithful

namespace Worker

variable {σ : Type} {t : UpdiTransport σ} {env : Env} {s s₁ : WorkerState σ} {d : UpdiDevice}
  {flash : ℕ → UInt8}

section Outcome

variable {I : LinkState σ → Prop} (hconn : doConnect t env false s = (.ok (), s₁))
  (hdev : s₁.app.session.device = some d) (hflash : ReadsFaithfully t d flash I)
  (hI : I ⟨s₁.app.session.link, s₁.ctx⟩) (hmalloc : env.malloc = true) {chunks : List (List UInt8)}
  (hhex : env.hexFile = some chunks) {img : IntelHexImage}
  (himg : parseHexFile (some chunks) (init (fun _ ↦ 0xFF) d.flashSize 0 0xFF) = (.ok (), img))
  (hfit : img.maxOffset ≤ d.flashSize)
include hconn hdev hflash hI hmalloc hhex himg hfit

end Outcome

section Emulated

open HostTest UpdiEmu

theorem read_programmed {a24 : Bool} {m₀ m : EmuMem} (hd : d.WellFormed)
    (hfit : d.flashAddress + d.flashSize ≤ addressSpace a24) (hp : Programmed d m₀ flash m)
    {s : LinkState UpdiEmu} (h : InStep a24 m s) {off len : ℕ} (hlen : off + len ≤ d.flashSize) :
    ∃ s', UpdiNvm.read (emuTransport .emulator) (d.flashAddress + off) len s =
      (.ok ((List.range' off len).map flash), s') ∧ InStep a24 m s' := by
  obtain ⟨s', hread, h'⟩ :=
    readChunks_returns len (d.flashAddress + off) len (Nat.le_refl _) (by omega) h
  refine ⟨s', ?_, h'⟩
  rw [UpdiNvm.read, hread, hp.cells_flash hd hlen, List.range'_eq_map_range, List.map_map]
  rfl

def attiny412With (flash : ℕ → UInt8) : UpdiEmu :=
  { freshAttiny412 with mem := { freshAttiny412.mem with flash := flash } }

/-- One byte at offset 0x40, as of an application above a boot loader. -/
def applicationFile : List (List UInt8) := [(hexLines [0x34] 0x40 32).flatten]

end Emulated

end Worker

end UpdiProgrammer.Ui
