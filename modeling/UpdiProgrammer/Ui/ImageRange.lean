import UpdiProgrammer.Hex.Range
import UpdiProgrammer.HostTest.Programming
import UpdiProgrammer.Ui.HexFile

namespace UpdiProgrammer.Ui

open Updi HostTest Hex IntelHexImage Library.History Library.Tracked Library.Program

abbrev flashImage (d : UpdiDevice) : IntelHexImage := init (fun _ ↦ 0xFF) d.flashSize 0 0xFF

theorem readImage_exact {σ : Type} {env : Env} {d : UpdiDevice} {s s' : WorkerState σ}
    {image : List UInt8} {chunks : List (List UInt8)} (hfile : env.hexFile = some chunks)
    (hexact : RangeExact ((flashImage d).accepted 32 (fileLines chunks))
      ((flashImage d).parseLines 32 (fileLines chunks)))
    (h : Worker.readImage env d s = (.ok image, s')) :
    ∃ last, IsGreatest (stored 0 ((flashImage d).accepted 32 (fileLines chunks))) last ∧
      image.length = last + 1 ∧
      image = (List.range (last + 1)).map
        ((flashImage d).parseLines 32 (fileLines chunks)).data := by
  unfold Worker.readImage at h
  rw [hfile] at h
  split_ifs at h
  · cases h
  cases hparse : parseHexFile (some chunks) (flashImage d) with
  | mk status img =>
    rw [hparse] at h
    cases status with
    | error e => cases h
    | ok u =>
      obtain ⟨-, rfl, hany⟩ := parseHexFile_ok_iff.mp hparse
      obtain ⟨last, hlast, hend⟩ := hexact.tracks.greatest hany
      obtain ⟨himage, -⟩ := Prod.mk.inj h
      rw [parseLines_baseOffset] at hlast
      refine ⟨last, hlast, ?_, ?_⟩
      · rw [← Except.ok.inj himage, List.length_map, List.length_range, hend]
      · rw [← Except.ok.inj himage, hend]

/-- The range that the parser tracks is exact after every line of a run unless a
data record without a byte stretches it. In a file without such a record what
is flashed or verified ends at the last byte that the file defines. -/
theorem tracked_range_iff {w : ℕ} (buf : ℕ → UInt8) (capacity : ℕ) (baseOffset : UInt32)
    (fill : UInt8)
    {lines : List (List UInt8)} (hend : ∀ before line after, lines = before ++ line :: after →
      ((init buf capacity baseOffset fill).parseLines w before).EndFits w line) :
    ((∀ before after, lines = before ++ after →
        RangeExact ((init buf capacity baseOffset fill).accepted w before)
        ((init buf capacity baseOffset fill).parseLines w before)) ↔
      ∀ before line after, lines = before ++ line :: after →
        ¬((init buf capacity baseOffset fill).parseLines w before).Stretches line) ∧
    ∀ (d : UpdiDevice) (chunks : List (List UInt8)),
      (∀ before line after, fileLines chunks = before ++ line :: after →
        ((flashImage d).parseLines 32 before).EndFits 32 line ∧
          ¬((flashImage d).parseLines 32 before).Stretches line) →
      ((parseHexFile (some chunks) (flashImage d)).1 = .ok () →
          (stored 0 ((flashImage d).accepted 32 (fileLines chunks))).Nonempty) ∧
        ∀ {σ : Type} (env : Env) (s s' : WorkerState σ) (image : List UInt8),
          env.hexFile = some chunks →
          Worker.readImage env d s = (.ok image, s') →
          ∃ last, IsGreatest (stored 0 ((flashImage d).accepted 32 (fileLines chunks))) last ∧
            image.length = last + 1 ∧
            image = (List.range (last + 1)).map
              ((flashImage d).parseLines 32 (fileLines chunks)).data := by
  refine ⟨rangeExact_run_iff buf capacity baseOffset fill hend, fun d chunks hfile ↦ ?_⟩
  have hexact := (rangeExact_run_iff (fun _ ↦ 0xFF) d.flashSize 0 0xFF
    fun before line after hcat ↦ (hfile before line after hcat).1).mpr fun before line after hcat ↦
      (hfile before line after hcat).2
  have hall := hexact (fileLines chunks) [] (List.append_nil _).symm
  refine ⟨fun hok ↦ ?_, fun env s s' image hopen h ↦ readImage_exact hopen hall h⟩
  obtain ⟨-, himg, hany⟩ := parseHexFile_ok_iff.mp (Prod.ext hok rfl)
  have hsome := hall.tracks.nonempty.mp (himg ▸ hany)
  rwa [parseLines_baseOffset] at hsome

def byteFile : List (List UInt8) := [(hexLines [0x1E] 0 32).flatten]

def byteEnv : Env := ⟨true, true, some byteFile, true, fun _ l ↦ l.length⟩

theorem byteFile_lines : fileLines byteFile =
    [recordText 2 0 ihexTypeExtLinear [0, 0], recordText 1 0 ihexTypeData [0x1E],
      recordText 0 0 ihexTypeEof []] := by
  decide +kernel

/-- Records that overlap, with descending addresses, and one without a byte
inside the range. -/
def overlapLines : List (List UInt8) :=
  [recordText 2 0x10 ihexTypeData [1, 2], recordText 2 0x0F ihexTypeData [3, 4],
    recordText 0 0x10 ihexTypeData [], recordText 0 0 ihexTypeEof []]

theorem tracked_range_host :
    (∀ before after, overlapLines = before ++ after →
      RangeExact ((init (fun _ ↦ 0) 0x1000 0 0xFF).accepted 64 before)
        ((init (fun _ ↦ 0) 0x1000 0 0xFF).parseLines 64 before)) ∧
      ∃ last, IsGreatest (stored 0 ((flashImage attiny412).accepted 32 (fileLines byteFile))) last ∧
        [(0x1E : UInt8)].length = last + 1 ∧
        [0x1E] = (List.range (last + 1)).map
          ((flashImage attiny412).parseLines 32 (fileLines byteFile)).data := by
  obtain ⟨hrun, hfile⟩ := @tracked_range_iff 64 (fun _ ↦ 0) 0x1000 0 0xFF overlapLines
    fun _ _ _ _ r _ _ ↦ end_fits (by decide) r
  constructor
  · apply hrun.mpr
    unfold overlapLines
    simp only [forall_entry_cons]
    exact ⟨by decide, by decide, by decide, by decide, forall_entry_nil⟩
  · have hlines : ∀ before line after, fileLines byteFile = before ++ line :: after →
        ((flashImage attiny412).parseLines 32 before).EndFits 32 line ∧
          ¬((flashImage attiny412).parseLines 32 before).Stretches line := by
      rw [byteFile_lines]
      simp only [forall_entry_cons]
      exact ⟨by decide, by decide, by decide, forall_entry_nil⟩
    have hread : (Worker.readImage byteEnv attiny412 (⟨UpdiApp.alloc, ()⟩ : WorkerState Unit)).1 =
        .ok [0x1E] := by
      decide +kernel
    cases hrun : Worker.readImage byteEnv attiny412 (⟨UpdiApp.alloc, ()⟩ : WorkerState Unit) with
    | mk result s' =>
      rw [hrun] at hread
      obtain rfl : result = .ok [0x1E] := hread
      exact (hfile attiny412 byteFile hlines).2 byteEnv _ s' [0x1E] rfl hrun

/-- `:00000500FB`, a data record at the address 5 that holds no byte. -/
def emptyRecordLine : List UInt8 := recordText 0 5 ihexTypeData []

/-- A file without a byte of data is taken, and five bytes are flashed. -/
theorem empty_record_taken :
    (parseHexFile (some [emptyRecordLine]) (init (fun _ ↦ 0xFF) 0x1000 0 0xFF)).1 = .ok () ∧
      (parseHexFile (some [emptyRecordLine]) (init (fun _ ↦ 0xFF) 0x1000 0 0xFF)).2.maxOffset = 5 ∧
      ¬RangeExact ((init (fun _ ↦ 0xFF) 0x1000 0 0xFF).accepted 64 [emptyRecordLine])
        ((init (fun _ ↦ 0xFF) 0x1000 0 0xFF).parseLines 64 [emptyRecordLine]) := by
  refine ⟨by decide, by decide, fun h ↦ ?_⟩
  have hlen : (0 : UInt8).toNat ≤ ([] : List UInt8).length := Nat.le_refl 0
  have hin := recordIn_recordText hlen 5 ihexTypeData []
  rw [List.append_nil] at hin
  have hend : (init (fun _ ↦ 0xFF) 0x1000 0 0xFF).EndFits 64 emptyRecordLine :=
    fun r _ _ ↦ end_fits (by decide) r
  have hline := rangeExact_line_iff (init_rangeExact (fun _ ↦ 0xFF) 0x1000 0 0xFF) rfl
    (init_baseFits _ _ _ _) hend
  rw [accepted, accepted, List.append_nil] at h
  exact hline.mp h ⟨_, _, hin, rfl, rfl, ⟨by decide, by decide⟩,
    fun hany ↦ absurd hany Bool.false_ne_true⟩

end UpdiProgrammer.Ui
