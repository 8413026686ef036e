import UpdiProgrammer.Hex.Grammar

namespace UpdiProgrammer.Hex

open IntelHexImage

/-- The digits of a record, whatever its checksum is. -/
def RecordDigits (digits : List UInt8) : Prop :=
  ∃ bytes count, Spells digits bytes ∧ bytes.head? = some count ∧ bytes.length = count.toNat + 5

/-- The first character of a line that is no white space, or the record that
starts there, reaches beyond the first `n` characters. -/
def ReachesBeyond (n : ℕ) (line : List UInt8) : Prop :=
  ∃ space c rest, line = space ++ c :: rest ∧ (∀ b ∈ space, isSpace b = true) ∧ isSpace c = false ∧
    (n ≤ space.length ∨ c = 0x3A ∧ ∃ digits tail, rest = digits ++ tail ∧ RecordDigits digits ∧
      n < space.length + 1 + digits.length)

theorem not_reachesBeyond {n : ℕ} {line : List UInt8} (h : line.length < n) :
    ¬ReachesBeyond n line := by
  rintro ⟨space, c, rest, rfl, -, -, hlong | ⟨-, digits, tail, rfl, -, hlong⟩⟩
  · simp at h
    omega
  · simp at h
    omega

/-- All the reads of the parser behind the colon. -/
def ReadsRecord (text : List UInt8) (count : UInt8) (bytes : List UInt8) : Prop :=
  hexByte text 0 = some count ∧ hexBytes text 0 (count.toNat + 5) = some bytes

theorem hexByte_iff_hexBytes {text : List UInt8} {p : ℕ} {b : UInt8} :
    hexByte text p = some b ↔ hexBytes text p 1 = some [b] := by
  rw [hexBytes_cons]
  exact (and_iff_left rfl).symm

theorem hexBytes_take_iff {text bytes : List UInt8} {m n : ℕ} :
    hexBytes (text.take m) 0 n = some bytes ↔ hexBytes text 0 n = some bytes ∧ 2 * n ≤ m := by
  rw [hexBytes_iff, hexBytes_iff, List.drop_zero, List.drop_zero]
  constructor
  · rintro ⟨rfl, digits, rest, htake, hspells⟩
    have hlen := hspells.length
    have hcat := congrArg List.length htake
    rw [List.length_take, List.length_append] at hcat
    refine ⟨⟨rfl, digits, rest ++ text.drop m, ?_, hspells⟩, by omega⟩
    rw [← List.append_assoc, ← htake, List.take_append_drop]
  · rintro ⟨⟨rfl, digits, rest, rfl, hspells⟩, hle⟩
    refine ⟨rfl, digits, rest.take (m - digits.length), ?_, hspells⟩
    rw [List.take_append, List.take_of_length_le (by rw [hspells.length]; exact hle)]

theorem readsRecord_iff {text : List UInt8} {m : ℕ} :
    (∃ digits tail, text = digits ++ tail ∧ RecordDigits digits ∧ m < digits.length) ↔
      ∃ count bytes, ReadsRecord text count bytes ∧ m < 2 * (count.toNat + 5) := by
  constructor
  · rintro ⟨digits, tail, rfl, ⟨bytes, count, hspells, hcount, hlen⟩, hlt⟩
    have hbytes := hexBytes_iff.mpr ⟨hlen, digits, tail, List.drop_zero, hspells⟩
    rw [hspells.length, hlen] at hlt
    refine ⟨count, bytes, ⟨?_, hbytes⟩, hlt⟩
    cases bytes with
    | nil => cases hcount
    | cons b bytes => exact (hexBytes_cons.mp hbytes).1.trans hcount
  · rintro ⟨count, bytes, ⟨hcount, hbytes⟩, hlt⟩
    obtain ⟨hlen, digits, tail, htext, hspells⟩ := hexBytes_iff.mp hbytes
    rw [List.drop_zero] at htext
    have hshort : m < digits.length := by
      rw [hspells.length, hlen]
      exact hlt
    refine ⟨digits, tail, htext, ⟨bytes, count, hspells, ?_, hlen⟩, hshort⟩
    cases bytes with
    | nil => exact absurd hlen (by rw [List.length_nil]; omega)
    | cons b bytes =>
      rw [(hexBytes_cons.mp hbytes).1] at hcount
      exact hcount

theorem ReadsRecord.unique {text bytes bytes' : List UInt8} {count count' : UInt8}
    (h : ReadsRecord text count bytes) (h' : ReadsRecord text count' bytes') : count = count' :=
  Option.some_inj.mp (h.1.symm.trans h'.1)

theorem readsRecord_fields {text bytes : List UInt8} {count : UInt8} :
    ReadsRecord text count bytes ↔
    ∃ addrHi addrLo type data checksum, bytes = count :: addrHi :: addrLo :: type ::
      (data ++ [checksum]) ∧
      hexByte text 0 = some count ∧ hexByte text 2 = some addrHi ∧ hexByte text 4 = some addrLo ∧
      hexByte text 6 = some type ∧ hexBytes text 8 count.toNat = some data ∧
      hexByte text (8 + count.toNat * 2) = some checksum := by
  constructor
  · rintro ⟨hcount, hbytes⟩
    have hlen := hexBytes_length hbytes
    obtain ⟨b, bytes, rfl⟩ := List.exists_cons_of_length_eq_add_one hlen
    obtain ⟨h₀, hbytes⟩ := hexBytes_cons.mp hbytes
    obtain ⟨addrHi, bytes, rfl⟩ := List.exists_cons_of_length_eq_add_one (hexBytes_length hbytes)
    obtain ⟨h₂, hbytes⟩ := hexBytes_cons.mp hbytes
    obtain ⟨addrLo, bytes, rfl⟩ := List.exists_cons_of_length_eq_add_one (hexBytes_length hbytes)
    obtain ⟨h₄, hbytes⟩ := hexBytes_cons.mp hbytes
    obtain ⟨type, bytes, rfl⟩ := List.exists_cons_of_length_eq_add_one (hexBytes_length hbytes)
    obtain ⟨h₆, hbytes⟩ := hexBytes_cons.mp hbytes
    obtain ⟨data, checksum, rfl⟩ : ∃ data checksum, bytes = data ++ [checksum] := by
      rcases List.eq_nil_or_concat bytes with rfl | ⟨data, checksum, rfl⟩
      · exact absurd (hexBytes_length hbytes) (Nat.succ_ne_zero _).symm
      · exact ⟨data, checksum, List.concat_eq_append⟩
    have hdata : data.length = count.toNat := by
      have h := hexBytes_length hbytes
      rw [List.length_append, List.length_singleton] at h
      exact Nat.succ.inj h
    rw [← hdata] at hbytes ⊢
    obtain ⟨h₈, hchk⟩ := hexBytes_concat.mp hbytes
    obtain rfl := Option.some_inj.mp (h₀.symm.trans hcount)
    exact ⟨addrHi, addrLo, type, data, checksum, rfl, hcount, h₂, h₄, h₆, h₈, hchk⟩
  · rintro ⟨addrHi, addrLo, type, data, checksum, rfl, h₀, h₂, h₄, h₆, h₈, hchk⟩
    have hdata := hexBytes_length h₈
    rw [← hdata] at h₈ hchk
    have hrest := hexBytes_concat.mpr ⟨h₈, hchk⟩
    rw [hdata] at hrest
    exact ⟨h₀, hexBytes_cons.mpr
      ⟨h₀, hexBytes_cons.mpr ⟨h₂, hexBytes_cons.mpr ⟨h₄, hexBytes_cons.mpr ⟨h₆, hrest⟩⟩⟩⟩⟩

theorem charAt_zero (c : UInt8) (text : List UInt8) : charAt (c :: text) 0 = c := rfl

theorem parseRecord_of_reads {line text : List UInt8} {count : UInt8} {bytes : List UInt8}
    (hline : line.dropWhile isSpace = 0x3A :: text) (h : ReadsRecord text count bytes) :
    parseRecord line ≠ .error .errFormat ∧ ∀ line' text', line'.dropWhile isSpace = 0x3A :: text' →
      ReadsRecord text' count bytes → parseRecord line' = parseRecord line := by
  obtain ⟨addrHi, addrLo, type, data, checksum, rfl, h₀, h₂, h₄, h₆, h₈, hchk⟩ :=
    readsRecord_fields.mp h
  constructor
  · unfold parseRecord
    simp only [hline, charAt_zero, List.drop_succ_cons, List.drop_zero, h₀, h₂, h₄, h₆, h₈, hchk]
    split_ifs <;> simp_all
  · intro line' text' hline' h'
    obtain ⟨addrHi', addrLo', type', data', checksum', hbytes, h₀', h₂', h₄', h₆', h₈', hchk'⟩ :=
      readsRecord_fields.mp h'
    simp only [List.cons.injEq, true_and] at hbytes
    obtain ⟨rfl, rfl, rfl, hrest⟩ := hbytes
    obtain ⟨rfl, hlast⟩ := List.append_inj' hrest rfl
    obtain rfl := List.singleton_inj.mp hlast
    unfold parseRecord
    simp only [hline, hline', charAt_zero, List.drop_succ_cons, List.drop_zero, h₀, h₂, h₄, h₆, h₈,
      hchk, h₀', h₂', h₄', h₆', h₈', hchk']

theorem parseRecord_of_not_reads {line text : List UInt8}
    (hline : line.dropWhile isSpace = 0x3A :: text)
    (h : ¬∃ count bytes, ReadsRecord text count bytes) : parseRecord line = .error .errFormat := by
  unfold parseRecord
  dsimp only
  rw [hline, charAt_zero, if_neg (by decide), if_neg (by decide), List.drop_succ_cons,
    List.drop_zero]
  split
  · rename_i count addrHi addrLo type h₀ h₂ h₄ h₆
    split
    · rename_i data h₈
      split
      · rename_i checksum hchk
        exact absurd ⟨count, _, readsRecord_fields.mpr ⟨addrHi, addrLo, type, data, checksum, rfl,
          h₀, h₂, h₄, h₆, h₈, hchk⟩⟩ h
      · rfl
    · rfl
  · rfl

theorem parseRecord_of_ne {line text : List UInt8} {c : UInt8}
    (hline : line.dropWhile isSpace = c :: text) (h₀ : c ≠ 0) (hc : c ≠ 0x3A) :
    parseRecord line = .error .errFormat := by
  unfold parseRecord
  dsimp only
  rw [hline, charAt_zero, if_neg h₀, if_pos hc]

theorem readsRecord_take_iff {text bytes : List UInt8} {count : UInt8} {m : ℕ} :
    ReadsRecord (text.take m) count bytes ↔ ReadsRecord text count bytes ∧
      2 * (count.toNat + 5) ≤ m := by
  unfold ReadsRecord
  rw [hexByte_iff_hexBytes, hexByte_iff_hexBytes, hexBytes_take_iff, hexBytes_take_iff]
  constructor
  · rintro ⟨⟨hcount, -⟩, hbytes, hle⟩
    exact ⟨⟨hcount, hbytes⟩, hle⟩
  · rintro ⟨⟨hcount, hbytes⟩, hle⟩
    exact ⟨⟨hcount, by omega⟩, hbytes, hle⟩

theorem parseRecord_colon_iff {line line' text : List UInt8} {m : ℕ}
    (hline : line.dropWhile isSpace = 0x3A :: text)
    (hline' : line'.dropWhile isSpace = 0x3A :: text.take m) :
    parseRecord line' = parseRecord line ↔
      ¬∃ digits tail, text = digits ++ tail ∧ RecordDigits digits ∧ m < digits.length := by
  rw [readsRecord_iff]
  by_cases h : ∃ count bytes, ReadsRecord text count bytes
  · obtain ⟨count, bytes, hreads⟩ := h
    obtain ⟨hformat, heq⟩ := parseRecord_of_reads hline hreads
    by_cases hle : 2 * (count.toNat + 5) ≤ m
    · refine iff_of_true (heq line' _ hline' (readsRecord_take_iff.mpr ⟨hreads, hle⟩)) ?_
      rintro ⟨count', bytes', hreads', hlt⟩
      rw [hreads'.unique hreads] at hlt
      omega
    · have hcut : ¬∃ count bytes, ReadsRecord (text.take m) count bytes := by
        rintro ⟨count', bytes', hreads'⟩
        obtain ⟨hreads', hle'⟩ := readsRecord_take_iff.mp hreads'
        rw [hreads'.unique hreads] at hle'
        exact hle hle'
      rw [parseRecord_of_not_reads hline' hcut]
      exact iff_of_false hformat.symm fun hnot ↦ hnot ⟨count, bytes, hreads, Nat.lt_of_not_le hle⟩
  · have hcut : ¬∃ count bytes, ReadsRecord (text.take m) count bytes :=
      fun ⟨count, bytes, hreads⟩ ↦ h ⟨count, bytes, (readsRecord_take_iff.mp hreads).1⟩
    rw [parseRecord_of_not_reads hline' hcut, parseRecord_of_not_reads hline h]
    exact iff_of_true rfl fun ⟨count, bytes, hreads, _⟩ ↦ h ⟨count, bytes, hreads⟩

theorem reachesBeyond_iff {line text : List UInt8} {c : UInt8} {n : ℕ}
    (hrest : line.dropWhile isSpace = c :: text) :
    ReachesBeyond n line ↔ n ≤ (line.takeWhile isSpace).length ∨ c = 0x3A ∧
      ∃ digits tail, text = digits ++ tail ∧
      RecordDigits digits ∧ n < (line.takeWhile isSpace).length + 1 + digits.length := by
  have hsplit := List.takeWhile_append_dropWhile (p := isSpace) (l := line)
  rw [hrest] at hsplit
  constructor
  · rintro ⟨space, c', rest, hline, hspace, hc', hreach⟩
    have hcons : c' :: rest = c :: text := by rw [← hrest, hline, dropWhile_space hspace hc']
    have hlen := congrArg List.length (hsplit.trans hline)
    rw [hcons, List.length_append, List.length_append, Nat.add_right_cancel_iff] at hlen
    obtain ⟨rfl, rfl⟩ := List.cons.inj hcons
    rw [hlen]
    exact hreach
  · intro hreach
    have hfirst := List.head?_dropWhile_not isSpace line
    rw [hrest] at hfirst
    exact ⟨_, c, text, hsplit.symm, fun _ hb ↦ List.mem_takeWhile_imp hb, hfirst, hreach⟩

theorem parseRecord_take_iff {line : List UInt8} (h : 0 ∉ line) (n : ℕ) :
    parseRecord (line.take n) = parseRecord line ↔ ¬ReachesBeyond n line := by
  have hcut : 0 ∉ line.take n := fun hmem ↦ h (List.mem_of_mem_take hmem)
  have hsplit := List.takeWhile_append_dropWhile (p := isSpace) (l := line)
  have hspace : ∀ b ∈ line.takeWhile isSpace, isSpace b = true :=
    fun _ hb ↦ List.mem_takeWhile_imp hb
  cases hrest : line.dropWhile isSpace with
  | nil =>
    have hall := List.dropWhile_eq_nil_iff.mp hrest
    rw [(parseRecord_blank_iff h).mpr hall,
      (parseRecord_blank_iff hcut).mpr fun c hc ↦ hall c (List.mem_of_mem_take hc)]
    refine iff_of_true rfl ?_
    rintro ⟨space, c, rest, rfl, -, hc, -⟩
    rw [hall c (List.mem_append_right space List.mem_cons_self)] at hc
    cases hc
  | cons c text =>
    have hfirst := List.head?_dropWhile_not isSpace line
    rw [hrest] at hsplit hfirst
    rw [reachesBeyond_iff hrest]
    generalize line.takeWhile isSpace = space at hsplit hspace ⊢
    have hmem : c ∈ line := by
      rw [← hsplit]
      exact List.mem_append_right space List.mem_cons_self
    by_cases hn : n ≤ space.length
    · have hblank : parseRecord (line.take n) = .ok none := by
        refine (parseRecord_blank_iff hcut).mpr fun b hb ↦ hspace b ?_
        rw [← hsplit, List.take_append_of_le_length hn] at hb
        exact List.mem_of_mem_take hb
      refine iff_of_false (fun heq ↦ ?_) (not_not_intro (.inl hn))
      have hc := (parseRecord_blank_iff h).mp (heq.symm.trans hblank) c hmem
      rw [hfirst] at hc
      cases hc
    · obtain ⟨m, rfl⟩ : ∃ m, n = space.length + 1 + m := ⟨_, (Nat.add_sub_of_le (by omega)).symm⟩
      have hrest' : (line.take (space.length + 1 + m)).dropWhile isSpace = c :: text.take m := by
        rw [← hsplit, Nat.add_assoc, List.take_length_add_append, Nat.add_comm 1 m,
          List.take_succ_cons, dropWhile_space hspace hfirst]
      have hlt (digits : List UInt8) : space.length + 1 + m < space.length + 1 + digits.length ↔
          m < digits.length :=
        Nat.add_lt_add_iff_left
      simp only [hn, false_or, hlt]
      by_cases hc : c = 0x3A
      · subst hc
        rw [parseRecord_colon_iff hrest hrest', and_iff_right rfl]
      · have h₀ : c ≠ 0 := fun hzero ↦ h (hzero ▸ hmem)
        rw [parseRecord_of_ne hrest h₀ hc, parseRecord_of_ne hrest' h₀ hc]
        exact iff_of_true rfl fun hcolon ↦ hc hcolon.1

end UpdiProgrammer.Hex
