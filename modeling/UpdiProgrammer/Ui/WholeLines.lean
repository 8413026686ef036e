import UpdiProgrammer.Hex.Truncation
import UpdiProgrammer.Ui.HexFile

namespace UpdiProgrammer.Ui

open Updi Hex IntelHexImage

def dropCr (line : List UInt8) : List UInt8 := line.filter (· ≠ 0x0D)

def nonempty (lines : List (List UInt8)) : List (List UInt8) := lines.filter (· ≠ [])

/-- The lines of a text without their CRs, less those that are empty then. -/
def wholeLines (text : List UInt8) : List (List UInt8) := nonempty ((text.splitOn 0x0A).map dropCr)

/-- A file read line by line, up to the first one that is not accepted. -/
def plainHexFile (text : List UInt8) (img : IntelHexImage) : UpdiStatus × IntelHexImage :=
  if (feedLines img (wholeLines text)).1 ∨ !(feedLines img (wholeLines text)).2.any then
    (.error .param, (feedLines img (wholeLines text)).2)
  else (.ok (), (feedLines img (wholeLines text)).2)

/-- The lines up to the first one that is not accepted. -/
def upToRefused (img : IntelHexImage) : List (List UInt8) → List (List UInt8)
  | [] => []
  | line :: lines =>
    line :: if (img.parseLine 32 line).1 ≠ .ok then [] else
      upToRefused (img.parseLine 32 line).2 lines

/-- The lines that a reader hands to the parser as it reads a text. -/
def HexReader.handed : HexReader → List UInt8 → List (List UInt8)
  | r, [] => if r.line.length = 0 ∨ r.parseError then [] else [r.line]
  | r, c :: text =>
    if c = 0x0A ∧ r.line.length ≠ 0 ∧ ¬r.parseError then r.line :: handed (r.char c) text else
      handed (r.char c) text

theorem dropCr_cons (c : UInt8) (line : List UInt8) :
    dropCr (c :: line) = if c = 0x0D then dropCr line else c :: dropCr line := by
  unfold dropCr
  by_cases h : c = 0x0D <;> simp [h]

theorem nonempty_cons (line : List UInt8) (lines : List (List UInt8)) :
    nonempty (line :: lines) = if line = [] then nonempty lines else line :: nonempty lines := by
  unfold nonempty
  by_cases h : line = [] <;> simp [h]

theorem take_empty_iff (line : List UInt8) :
    (line.take (hexLineMax - 1)).length = 0 ↔ line = [] := by
  have hlimit : hexLineMax - 1 = 299 := rfl
  rw [List.length_take, ← List.length_eq_zero_iff]
  omega

theorem take_concat (whole : List UInt8) (c : UInt8) :
    (whole ++ [c]).take (hexLineMax - 1) = if (whole.take (hexLineMax - 1)).length <
      hexLineMax - 1 then
      whole.take (hexLineMax - 1) ++ [c] else whole.take (hexLineMax - 1) := by
  rw [List.length_take]
  split_ifs with h
  · have hlen : whole.length < hexLineMax - 1 := by omega
    rw [List.take_of_length_le hlen.le, List.take_of_length_le]
    rw [List.length_append, List.length_singleton]
    exact hlen
  · rw [List.take_append_of_le_length (by omega)]

theorem splitLines_clamped (text whole : List UInt8) :
    splitLines (whole.take (hexLineMax - 1)) text =
    (nonempty (((text.splitOn 0x0A).map dropCr).modifyHead (whole ++ ·))).map
      (List.take (hexLineMax - 1)) := by
  induction text generalizing whole with
  | nil =>
    rw [splitLines, List.splitOn_nil, List.map_singleton, List.modifyHead_cons, nonempty_cons]
    have hcat : whole ++ dropCr [] = whole := List.append_nil whole
    simp only [hcat, take_empty_iff]
    split_ifs <;> rfl
  | cons c text ih =>
    obtain ⟨first, rest, hsplit⟩ : ∃ first rest, text.splitOn 0x0A = first :: rest :=
      List.exists_cons_of_ne_nil (List.splitOn_ne_nil 0x0A text)
    rw [splitLines, List.splitOn_cons_eq_if_modifyHead]
    rw [hsplit] at ih ⊢
    simp only [List.map_cons, List.modifyHead_cons] at ih
    by_cases hlf : c = 0x0A
    · have hrest := ih []
      have hcat : whole ++ dropCr [] = whole := List.append_nil whole
      rw [List.take_nil, List.nil_append] at hrest
      rw [if_pos hlf, if_pos (beq_iff_eq.mpr hlf), List.map_cons, List.modifyHead_cons, hcat,
        nonempty_cons, hrest, List.map_cons]
      simp only [take_empty_iff]
      split_ifs <;> rfl
    · have hbeq : ¬(c == 0x0A) = true := by simpa using hlf
      rw [if_neg hlf, if_neg hbeq, List.modifyHead_cons, List.map_cons,
        List.modifyHead_cons, dropCr_cons]
      by_cases hcr : c = 0x0D
      · rw [if_neg fun hkeep ↦ hkeep.1 hcr, if_pos hcr]
        exact ih whole
      · have hstep := ih (whole ++ [c])
        rw [take_concat, List.append_assoc] at hstep
        rw [if_neg hcr]
        by_cases hroom : (whole.take (hexLineMax - 1)).length < hexLineMax - 1
        · rw [if_pos hroom] at hstep
          rw [if_pos ⟨hcr, hroom⟩]
          exact hstep
        · rw [if_neg hroom] at hstep
          rw [if_neg fun hkeep ↦ hroom hkeep.2]
          exact hstep

theorem fileLines_clamped (text : List UInt8) :
    splitLines [] text = (wholeLines text).map (List.take (hexLineMax - 1)) := by
  have h := splitLines_clamped text []
  rw [List.take_nil] at h
  rw [h, wholeLines]
  cases (text.splitOn 0x0A).map dropCr <;> rfl

theorem handed_error {r : HexReader} (h : r.parseError = true) (text : List UInt8) :
    r.handed text = [] := by
  induction text with
  | nil => exact if_pos (.inr h)
  | cons c text ih =>
    rw [HexReader.handed, if_neg fun hlf ↦ hlf.2.2 h, HexReader.char_error h]
    exact ih

theorem handed_eq (img : IntelHexImage) (line text : List UInt8) :
    HexReader.handed ⟨img, line, false⟩ text = upToRefused img (splitLines line text) := by
  induction text generalizing img line with
  | nil =>
    rw [HexReader.handed, splitLines]
    by_cases hl : line.length = 0
    · rw [if_pos (.inl hl), if_pos hl]
      rfl
    · rw [if_neg (by simpa using hl), if_neg hl, upToRefused]
      split_ifs <;> rfl
  | cons c text ih =>
    rw [HexReader.handed, splitLines]
    by_cases hc : c = 0x0A
    · have hchar : HexReader.char ⟨img, line, false⟩ c = HexReader.endLine ⟨img, line, false⟩ :=
        if_pos hc
      rw [if_pos hc, hchar]
      by_cases hl : line.length = 0
      · obtain rfl := List.length_eq_zero_iff.mp hl
        rw [if_neg fun h ↦ h.2.1 rfl]
        exact ih img []
      · rw [if_pos ⟨hc, hl, Bool.false_ne_true⟩, if_neg hl, upToRefused, HexReader.endLine_cons hl]
        by_cases hok : (img.parseLine 32 line).1 = .ok
        · rw [if_neg (not_not.mpr hok), if_neg (not_not.mpr hok), ih]
        · rw [if_pos hok, if_pos hok, handed_error rfl]
    · rw [if_neg fun h ↦ hc h.1, if_neg hc]
      by_cases hkeep : c ≠ 0x0D ∧ line.length < hexLineMax - 1
      · have hchar : HexReader.char ⟨img, line, false⟩ c = ⟨img, line ++ [c], false⟩ :=
          (if_neg hc).trans (if_pos hkeep)
        rw [if_pos hkeep, hchar, ih]
      · have hchar : HexReader.char ⟨img, line, false⟩ c = ⟨img, line, false⟩ :=
          (if_neg hc).trans (if_neg hkeep)
        rw [if_neg hkeep, hchar, ih]

theorem parseLine_of_record {line line' : List UInt8} (h : parseRecord line' = parseRecord line)
    (w : ℕ) (img : IntelHexImage) : img.parseLine w line' = img.parseLine w line := by
  unfold parseLine
  rw [h]

theorem feedLines_of_records {img : IntelHexImage} {lines lines' : List (List UInt8)}
    (h : (upToRefused img lines').map parseRecord = (upToRefused img lines).map parseRecord) :
    feedLines img lines' = feedLines img lines := by
  induction lines generalizing img lines' with
  | nil =>
    cases lines' with
    | nil => rfl
    | cons line' lines' => cases h
  | cons line lines ih =>
    cases lines' with
    | nil => cases h
    | cons line' lines' =>
      obtain ⟨hline, hrest⟩ := List.cons.inj h
      rw [parseLine_of_record hline] at hrest
      rw [feedLines, feedLines, parseLine_of_record hline]
      split_ifs at hrest ⊢ with hok
      · rfl
      · exact ih hrest

theorem records_take_iff (img : IntelHexImage) {lines : List (List UInt8)}
    (h : ∀ line ∈ lines, 0 ∉ line) (n : ℕ) :
    (upToRefused img (lines.map (List.take n))).map parseRecord =
      (upToRefused img lines).map parseRecord ↔
      ∀ line ∈ upToRefused img lines, ¬ReachesBeyond n line := by
  induction lines generalizing img with
  | nil => exact iff_of_true rfl (List.forall_mem_nil _)
  | cons line lines ih =>
    rw [List.map_cons, upToRefused, upToRefused, List.map_cons, List.map_cons, List.cons.injEq,
      parseRecord_take_iff (h line List.mem_cons_self), List.forall_mem_cons]
    refine and_congr_right fun hline ↦ ?_
    have hsame := (parseRecord_take_iff (h line List.mem_cons_self) n).mpr hline
    rw [parseLine_of_record hsame]
    split_ifs with hok
    · exact iff_of_true rfl (List.forall_mem_nil _)
    · exact ih _ fun l hl ↦ h l (List.mem_cons_of_mem line hl)

theorem mem_of_mem_splitOn {text piece : List UInt8} {a c : UInt8} (hp : piece ∈ text.splitOn a)
    (hc : c ∈ piece) :
    c ∈ text := by
  induction text generalizing piece with
  | nil =>
    rw [List.splitOn_nil, List.mem_singleton] at hp
    exact hp ▸ hc
  | cons b text ih =>
    obtain ⟨first, rest, hsplit⟩ : ∃ first rest, text.splitOn a = first :: rest :=
      List.exists_cons_of_ne_nil (List.splitOn_ne_nil a text)
    rw [List.splitOn_cons_eq_if_modifyHead] at hp
    rw [hsplit] at ih hp
    split_ifs at hp
    · rcases List.mem_cons.mp hp with rfl | hp
      · cases hc
      · exact List.mem_cons_of_mem b (ih hp hc)
    · rw [List.modifyHead_cons] at hp
      rcases List.mem_cons.mp hp with rfl | hp
      · rcases List.mem_cons.mp hc with rfl | hc
        · exact List.mem_cons_self
        · exact List.mem_cons_of_mem b (ih List.mem_cons_self hc)
      · exact List.mem_cons_of_mem b (ih (List.mem_cons_of_mem first hp) hc)

theorem wholeLines_nul {text : List UInt8} (h : 0 ∉ text) : ∀ line ∈ wholeLines text, 0 ∉ line := by
  intro line hline hmem
  obtain ⟨piece, hpiece, rfl⟩ := List.mem_map.mp (List.mem_of_mem_filter hline)
  exact h (mem_of_mem_splitOn hpiece (List.mem_of_mem_filter hmem))

/-- The streaming reader is the plain one, record by record, just in case no line
that matters has a record that reaches beyond the line buffer. -/
theorem plain_reading_iff {chunks : List (List UInt8)} (hchunks : ∀ c ∈ chunks, c ≠ [])
    (hnul : 0 ∉ chunks.flatten) (img : IntelHexImage) :
    (parseHexFile (some chunks) img = plainHexFile chunks.flatten img ∧
      (HexReader.handed ⟨img, [], false⟩ (readBytes chunks)).map parseRecord =
        (upToRefused img (wholeLines chunks.flatten)).map parseRecord) ↔
      ∀ line ∈ upToRefused img (wholeLines chunks.flatten),
        ¬ReachesBeyond (hexLineMax - 1) line := by
  have hlines := fileLines_clamped chunks.flatten
  have hfile : fileLines chunks = splitLines [] chunks.flatten := by
    rw [fileLines, readBytes_of_ne_nil hchunks]
  rw [← records_take_iff img (wholeLines_nul hnul), handed_eq,
    readBytes_of_ne_nil hchunks, ← hlines]
  refine and_iff_right_of_imp fun hrecords ↦ ?_
  rw [parseHexFile_eq, plainHexFile, hfile, feedLines_of_records hrecords]

/-- The written file of one byte, in reads that end within its lines. -/
def shortReads : List (List UInt8) := (hexLines [0x1E] 0 32).flatten.toChunks 7

theorem shortReads_plain :
    parseHexFile (some shortReads) (init (fun _ ↦ 0xFF) 0x1000 0 0xFF) =
        plainHexFile shortReads.flatten (init (fun _ ↦ 0xFF) 0x1000 0 0xFF) ∧
      (HexReader.handed ⟨init (fun _ ↦ 0xFF) 0x1000 0 0xFF, [], false⟩ (readBytes shortReads)).map
        parseRecord =
        (upToRefused (init (fun _ ↦ 0xFF) 0x1000 0 0xFF) (wholeLines shortReads.flatten)).map
          parseRecord := by
  apply (plain_reading_iff (by decide +kernel) (by decide +kernel) _).mpr
  have hshort :
      ∀ line ∈ upToRefused (init (fun _ ↦ 0xFF) 0x1000 0 0xFF) (wholeLines shortReads.flatten),
      line.length < hexLineMax - 1 := by decide +kernel
  intro line hline
  exact not_reachesBeyond (hshort line hline)

/-- What the writer makes of 145 bytes on one line, in reads of 256 bytes. -/
def wideFile : List (List UInt8) :=
  (hexLines (List.replicate 145 0x55) 0 145).flatten.toChunks 256

/-- The writer's own file is refused, although the parser takes its lines. -/
theorem wide_file_refused : ¬∀ chunks : List (List UInt8), (∀ c ∈ chunks, c ≠ [] ∧ c.length ≤ 256) →
    0 ∉ chunks.flatten →
      ∀ img, parseHexFile (some chunks) img = plainHexFile chunks.flatten img := by
  intro h
  have hsame :=
    h wideFile (by decide +kernel) (by decide +kernel) (init (fun _ ↦ 0xFF) 0x1000 0 0xFF)
  have hplain : (plainHexFile wideFile.flatten (init (fun _ ↦ 0xFF) 0x1000 0 0xFF)).1 = .ok () := by
    decide +kernel
  have hread : (parseHexFile (some wideFile) (init (fun _ ↦ 0xFF) 0x1000 0 0xFF)).1 =
      .error .param := by
    decide +kernel
  rw [← hsame, hread] at hplain
  cases hplain

end UpdiProgrammer.Ui
