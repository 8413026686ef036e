import UpdiProgrammer.Hex.Grammar

namespace UpdiProgrammer.Hex

namespace Spells

variable {text text' bytes bytes' : List UInt8}

theorem unique (h : Spells text bytes) (h' : Spells text bytes') : bytes = bytes' := by
  induction h generalizing bytes' with
  | nil =>
    cases h'
    rfl
  | cons hhi hlo hb _ ih =>
    cases h' with
    | cons hhi' hlo' hb' rest =>
      obtain rfl := hhi.unique hhi'
      obtain rfl := hlo.unique hlo'
      rw [ih rest, UInt8.toNat_inj.mp (hb.trans hb'.symm)]

theorem take (h : Spells text bytes) (n : ℕ) : Spells (text.take (2 * n)) (bytes.take n) := by
  induction h generalizing n with
  | nil => simpa using Spells.nil
  | cons hhi hlo hb _ ih =>
    cases n with
    | zero => exact .nil
    | succ n => exact .cons hhi hlo hb (ih n)

theorem set (h : Spells text bytes) {j v v' : ℕ} {c d : UInt8} (hj : text[j]? = some c)
    (hc : DigitOf c v) (hd : DigitOf d v') (hne : v ≠ v') :
    ∃ b old, bytes[j / 2]? = some old ∧ b ≠ old ∧
      Spells (text.set j d) (bytes.set (j / 2) b) := by
  induction h generalizing j with
  | nil => cases hj
  | @cons hi lo byte h l text bytes hhi hlo hb rest ih =>
    have hlt := hlo.lt
    have hlt' := hd.lt
    have hhigh := hhi.lt
    match j with
    | 0 =>
      obtain rfl := Option.some_inj.mp hj
      obtain rfl := hhi.unique hc
      have hval : (UInt8.ofNat (16 * v' + l)).toNat = 16 * v' + l := by
        rw [UInt8.toNat_ofNat']
        omega
      refine ⟨UInt8.ofNat (16 * v' + l), byte, rfl, fun heq ↦ ?_, .cons hd hlo hval rest⟩
      rw [heq] at hval
      omega
    | 1 =>
      obtain rfl := Option.some_inj.mp hj
      obtain rfl := hlo.unique hc
      have hval : (UInt8.ofNat (16 * h + v')).toNat = 16 * h + v' := by
        rw [UInt8.toNat_ofNat']
        omega
      refine ⟨UInt8.ofNat (16 * h + v'), byte, rfl, fun heq ↦ ?_, .cons hhi hd hval rest⟩
      rw [heq] at hval
      omega
    | j + 2 =>
      obtain ⟨b, old, hold, hbne, hset⟩ := ih hj
      have hhalf : (j + 2) / 2 = j / 2 + 1 := by omega
      rw [hhalf]
      exact ⟨b, old, hold, hbne, .cons hhi hlo hb hset⟩

end Spells

/-- What the parser makes of digits between a colon and the end of the line:
the first byte says how many of them it reads. -/
theorem parseRecord_digits_iff {digits bytes : List UInt8} {count : UInt8} (h : Spells digits bytes)
    (hcount : bytes.head? = some count) {r : Record} :
    parseRecord (0x3A :: (digits ++ [0x0D, 0x0A])) = .ok (some r) ↔ count.toNat + 5 ≤ bytes.length ∧
      r.data.length = count.toNat ∧ ∃ checksum, bytes.take (count.toNat + 5) =
        r.bytes ++ [checksum] ∧
        ((r.bytes ++ [checksum]).map UInt8.toNat).sum % 256 = 0 := by
  have hdrop : (0x3A :: (digits ++ [0x0D, 0x0A])).dropWhile isSpace = 0x3A ::
      (digits ++ [0x0D, 0x0A]) :=
    List.dropWhile_cons_of_neg (by decide)
  have hlen := h.length
  rw [parseRecord_some_iff, hdrop]
  constructor
  · rintro ⟨text, tail, hcat, hr⟩
    have htext := hr.length
    obtain ⟨hdata, checksum, hspells, hsum⟩ := hr
    rw [List.cons.injEq, and_iff_right rfl] at hcat
    obtain ⟨rest, rfl⟩ : ∃ rest, digits = text ++ rest := by
      rcases List.append_eq_append_iff.mp hcat with ⟨more, rfl, hmore⟩ | ⟨rest, rfl, -⟩
      · cases more with
        | nil => exact ⟨[], by rw [List.append_nil, List.append_nil]⟩
        | cons c more =>
          -- the digits would go on behind the end of the line
          obtain ⟨rfl, -⟩ := List.cons.inj hmore
          obtain ⟨v, hv⟩ := hspells.isHex 0x0D (List.mem_append_right digits List.mem_cons_self)
          unfold DigitOf at hv
          have hcr : (0x0D : UInt8).toNat = 13 := rfl
          omega
      · exact ⟨rest, rfl⟩
    have htake := h.take (r.byteCount.toNat + 5)
    rw [← htext, List.take_left] at htake
    have hbytes := htake.unique hspells
    have hhead : bytes.head? = some r.byteCount := by
      have hfirst := congrArg List.head? hbytes
      rw [List.head?_take, if_neg (by omega)] at hfirst
      exact hfirst
    obtain rfl := Option.some_inj.mp (hcount.symm.trans hhead)
    rw [List.length_append, htext] at hlen
    exact ⟨by omega, hdata, checksum, hbytes, hsum⟩
  · rintro ⟨hle, hdata, checksum, hbytes, hsum⟩
    have hhead : r.byteCount = count := by
      have hfirst := congrArg List.head? hbytes
      rw [List.head?_take, if_neg (by omega), hcount] at hfirst
      exact (Option.some_inj.mp hfirst).symm
    refine ⟨digits.take (2 * (count.toNat + 5)), digits.drop (2 * (count.toNat + 5)) ++
      [0x0D, 0x0A], ?_, hhead ▸ hdata, checksum, hbytes ▸ h.take _, hsum⟩
    rw [← List.append_assoc, List.take_append_drop]

theorem hexByte_head {digits bytes : List UInt8} {b : UInt8} (h : Spells digits bytes)
    (hb : bytes.head? = some b) (rest : List UInt8) :
    hexByte (0x3A :: (digits ++ rest)) 1 = some b := by
  have hdrop := hexByte_drop (0x3A :: (digits ++ rest)) 1 0
  rw [List.drop_succ_cons, List.drop_zero, Nat.add_zero] at hdrop
  rw [← hdrop, hexByte_zero_iff]
  cases h with
  | nil => cases hb
  | cons hhi hlo hval _ =>
    obtain rfl := Option.some_inj.mp hb
    exact ⟨_, _, _, _, _, rfl, hhi, hlo, hval⟩

theorem bytes_inj {r : Record} {count type : UInt8} {addr : UInt16} {tail rest : List UInt8}
    (h : r.bytes ++ tail = count :: (addr >>> 8).toUInt8 :: addr.toUInt8 :: type :: rest) :
    r = ⟨count, addr, type, r.data⟩ ∧ r.data ++ tail = rest := by
  obtain ⟨byteCount, recordAddr, type', data⟩ := r
  simp only [Record.bytes, List.cons_append, List.nil_append, List.cons.injEq] at h
  obtain ⟨rfl, hhi, hlo, rfl, hrest⟩ := h
  have haddr := addr_bytes recordAddr
  rw [hhi, hlo, addr_bytes addr] at haddr
  exact ⟨by rw [haddr], hrest⟩

/-- One hex digit of a line is replaced by one of another value. -/
def Corrupts (text text' : List UInt8) : Prop :=
  ∃ k c d v v', text[k]? = some c ∧ DigitOf c v ∧ DigitOf d v' ∧ v ≠ v' ∧ text' = text.set k d

theorem Corrupts.digits {digits bytes line' : List UInt8} (h : Spells digits bytes)
    (hc : Corrupts (0x3A :: (digits ++ [0x0D, 0x0A])) line') :
    ∃ i b old digits', bytes[i]? = some old ∧ b ≠ old ∧
      line' = 0x3A :: (digits' ++ [0x0D, 0x0A]) ∧ Spells digits' (bytes.set i b) := by
  obtain ⟨k, c, d, v, v', hk, hc, hd, hne, rfl⟩ := hc
  have hout {c : UInt8} {v : ℕ} (hc : DigitOf c v) : c ≠ 0x3A ∧ c ≠ 0x0D ∧ c ≠ 0x0A := by
    unfold DigitOf at hc
    refine ⟨?_, ?_, ?_⟩ <;> rintro rfl
    · have hval : (0x3A : UInt8).toNat = 58 := rfl
      omega
    · have hval : (0x0D : UInt8).toNat = 13 := rfl
      omega
    · have hval : (0x0A : UInt8).toNat = 10 := rfl
      omega
  obtain ⟨hcolon, hcr, hlf⟩ := hout hc
  cases k with
  | zero => exact absurd (Option.some_inj.mp hk).symm hcolon
  | succ j =>
    rw [List.getElem?_cons_succ] at hk
    by_cases hj : j < digits.length
    · rw [List.getElem?_append_left hj] at hk
      obtain ⟨b, old, hold, hb, hset⟩ := h.set hk hc hd hne
      refine ⟨j / 2, b, old, digits.set j d, hold, hb, ?_, hset⟩
      rw [List.set_cons_succ, List.set_append_left _ _ hj]
    · rw [List.getElem?_append_right (Nat.le_of_not_lt hj)] at hk
      generalize j - digits.length = n at hk
      match n with
      | 0 => exact absurd (Option.some_inj.mp hk).symm hcr
      | 1 => exact absurd (Option.some_inj.mp hk).symm hlf
      | n + 2 => cases hk

theorem sum_set_ne {bytes : List UInt8} {i : ℕ} {b old : UInt8} (hold : bytes[i]? = some old)
    (hb : b ≠ old) (hsum : (bytes.map UInt8.toNat).sum % 256 = 0) :
    ((bytes.set i b).map UInt8.toNat).sum % 256 ≠ 0 := by
  have hne : b.toNat ≠ old.toNat := fun heq ↦ hb (UInt8.toNat_inj.mp heq)
  have hlt := b.toNat_lt
  have hlt' := old.toNat_lt
  have hcat : ((bytes.set i b).map UInt8.toNat).sum + old.toNat =
      (bytes.map UInt8.toNat).sum + b.toNat := by
    clear hsum
    induction bytes generalizing i with
    | nil => cases hold
    | cons byte bytes ih =>
      cases i with
      | zero =>
        obtain rfl := Option.some_inj.mp hold
        simp only [List.set_cons_zero, List.map_cons, List.sum_cons]
        omega
      | succ i =>
        have hrest := ih hold
        simp only [List.set_cons_succ, List.map_cons, List.sum_cons]
        omega
  omega

namespace IntelHexImage

variable {w : ℕ} {img : IntelHexImage}

/-- The count in a line is lower than the one that was emitted, and what it
makes of the record is one that the image takes: as much of the data as it
says, with the byte behind them for a checksum. -/
def Shortens (w : ℕ) (img : IntelHexImage) (count : UInt8) (addr : UInt16) (type : UInt8)
    (data line' : List UInt8) :
    Prop :=
  ∃ c, hexByte line' 1 = some c ∧ c.toNat < count.toNat ∧
    ((Record.bytes ⟨c, addr, type, data.take (c.toNat + 1)⟩).map UInt8.toNat).sum % 256 = 0 ∧
    Record.Taken ⟨c, addr, type, data.take c.toNat⟩
      (img.InRange w ⟨c, addr, type, data.take c.toNat⟩)

theorem corrupted_ok_iff {count : UInt8} {data line' : List UInt8} (h : count.toNat ≤ data.length)
    (addr : UInt16) (type : UInt8) (hc : Corrupts (recordLine count addr type data) line') :
    (img.parseLine w line').1 = .ok ↔ img.Shortens w count addr type data line' := by
  obtain ⟨text, hcat, hlen, checksum, hspells, hsum⟩ := recordText_spelt h addr type
  rw [recordLine_eq, hcat, List.cons_append] at hc
  obtain ⟨i, b, old, digits, hold, hb, rfl, hdigits⟩ := hc.digits hspells
  have hsum' := sum_set_ne hold hb hsum
  have hblank : ¬parseRecord (0x3A :: (digits ++ [0x0D, 0x0A])) = .ok none := by
    rw [parseRecord_none_iff, List.dropWhile_cons_of_neg (by decide)]
    exact fun hnul ↦ absurd hnul (by decide : (0x3A : UInt8) ≠ 0)
  rw [parseLine_ok_iff, or_iff_right hblank]
  have hlength : (Record.bytes ⟨count, addr, type, data.take count.toNat⟩ ++ [checksum]).length =
      count.toNat + 5 := by
    simp only [Record.bytes, List.length_append, List.length_cons, List.length_nil, hlen]
    omega
  generalize hbytes : Record.bytes ⟨count, addr, type, data.take count.toNat⟩ ++
    [checksum] = bytes at *
  cases i with
  | succ i =>
    -- the count is the old one, so the sum is taken over all bytes
    have hhead : (bytes.set (i + 1) b).head? = some count := by
      rw [← hbytes]
      rfl
    constructor
    · rintro ⟨r, hr, -⟩
      obtain ⟨-, -, checksum', htake, hzero⟩ := (parseRecord_digits_iff hdigits hhead).mp hr
      rw [List.take_of_length_le (by rw [List.length_set, hlength])] at htake
      exact absurd (htake ▸ hzero) hsum'
    · rintro ⟨c, hread, hlt, -⟩
      rw [hexByte_head hdigits hhead] at hread
      obtain rfl := Option.some_inj.mp hread
      exact absurd hlt (Nat.lt_irrefl _)
  | zero =>
    have hset : bytes.set 0 b = b :: (addr >>> 8).toUInt8 :: addr.toUInt8 :: type ::
        (data.take count.toNat ++ [checksum]) := by
      rw [← hbytes]
      rfl
    have hhead : (bytes.set 0 b).head? = some b := by rw [hset]; rfl
    have hne : b.toNat ≠ count.toNat := by
      rw [← hbytes] at hold
      exact fun heq ↦ hb ((UInt8.toNat_inj.mp heq).trans (Option.some_inj.mp hold))
    have hbody (hlt : b.toNat < count.toNat) : (bytes.set 0 b).take (b.toNat + 5) =
        Record.bytes ⟨b, addr, type, data.take (b.toNat + 1)⟩ := by
      have hdata : (data.take count.toNat ++ [checksum]).take (b.toNat + 1) =
          data.take (b.toNat + 1) := by
        rw [List.take_append_of_le_length (by rw [hlen]; exact hlt), List.take_take,
          Nat.min_eq_left hlt]
      rw [hset]
      simp only [List.take_succ_cons, hdata]
      rfl
    constructor
    · rintro ⟨r, hr, htaken⟩
      obtain ⟨hle, hcount, checksum', htake, hzero⟩ := (parseRecord_digits_iff hdigits hhead).mp hr
      rw [List.length_set, hlength] at hle
      have hlt : b.toNat < count.toNat := by omega
      rw [hbody hlt] at htake
      obtain ⟨hr', hcat⟩ : r = ⟨b, addr, type, r.data⟩ ∧
          r.data ++ [checksum'] = data.take (b.toNat + 1) :=
        bytes_inj htake.symm
      have hdata : r.data = data.take b.toNat := by
        have hfirst := congrArg (List.take b.toNat) hcat
        rwa [List.take_left' hcount, List.take_take, Nat.min_eq_left (Nat.le_succ _)] at hfirst
      rw [hr', hdata] at htaken
      exact ⟨b, hexByte_head hdigits hhead _, hlt, htake ▸ hzero, htaken⟩
    · rintro ⟨c, hread, hlt, hzero, htaken⟩
      rw [hexByte_head hdigits hhead] at hread
      obtain rfl := Option.some_inj.mp hread
      refine ⟨_, (parseRecord_digits_iff hdigits hhead).mpr ⟨?_, ?_, ?_⟩, htaken⟩
      · rw [List.length_set, hlength]
        omega
      · rw [List.length_take, Nat.min_eq_left (by omega)]
      · have hlast : b.toNat < data.length := by omega
        have hcat : Record.bytes ⟨b, addr, type, data.take (b.toNat + 1)⟩ =
            Record.bytes ⟨b, addr, type, data.take b.toNat⟩ ++ [data[b.toNat]] := by
          simp only [Record.bytes, List.take_succ_eq_append_getElem hlast, List.append_assoc]
        exact ⟨data[b.toNat], by rw [hbody hlt, hcat], by rw [← hcat]; exact hzero⟩

/-- A corrupted digit is caught, with the image as it was, unless it lowers the
count so that what the shorter count makes of the record is one that the image takes. -/
theorem corrupted_digit_iff (w : ℕ) (img : IntelHexImage) {count : UInt8} {data line' : List UInt8}
    (h : count.toNat ≤ data.length) (addr : UInt16) (type : UInt8)
    (hc : Corrupts (recordLine count addr type data) line') :
    ((img.parseLine w line').1 ≠ .ok ∧ (img.parseLine w line').2 = img) ↔
      ¬img.Shortens w count addr type data line' := by
  rw [← corrupted_ok_iff h addr type hc]
  constructor
  · intro hcaught
    exact hcaught.1
  · intro hbad
    exact ⟨hbad, parseLine_rejected hbad⟩

theorem corrupts_count : Corrupts (recordLine 2 0 ihexTypeData [0x00, 0xFF])
    ((recordLine 2 0 ihexTypeData [0x00, 0xFF]).set 2 0x31) :=
  ⟨2, 0x32, 0x31, 2, 1, by decide, .inl ⟨by decide, by decide⟩,
    .inl ⟨by decide, by decide⟩, by decide, rfl⟩

theorem corrupted_digit_count :
    (((init (fun _ ↦ 0) 0x1000 0 0xFF).parseLine 64
      ((recordLine 2 0 ihexTypeData [0x00, 0xFF]).set 2 0x31)).1 ≠ .ok ∧
      ((init (fun _ ↦ 0) 0x1000 0 0xFF).parseLine 64
        ((recordLine 2 0 ihexTypeData [0x00, 0xFF]).set 2 0x31)).2 =
        init (fun _ ↦ 0) 0x1000 0 0xFF) ↔
    ¬(init (fun _ ↦ 0) 0x1000 0 0xFF).Shortens 64 2 0 ihexTypeData [0x00, 0xFF]
      ((recordLine 2 0 ihexTypeData [0x00, 0xFF]).set 2 0x31) :=
  corrupted_digit_iff 64 _ (by decide) 0 ihexTypeData corrupts_count

/-- With one digit changed the record is accepted, with one byte of data where it had two. -/
theorem corrupted_count_accepted :
    Corrupts (recordLine 2 0 ihexTypeData [0x00, 0xFF])
      ((recordLine 2 0 ihexTypeData [0x00, 0xFF]).set 2 0x31) ∧
      ((init (fun _ ↦ 0) 0x1000 0 0xFF).parseLine 64
        ((recordLine 2 0 ihexTypeData [0x00, 0xFF]).set 2 0x31)).1 = .ok ∧
      ((init (fun _ ↦ 0) 0x1000 0 0xFF).parseLine 64
        ((recordLine 2 0 ihexTypeData [0x00, 0xFF]).set 2 0x31)).2.data 0 = 0x00 :=
  ⟨corrupts_count, by decide, by decide⟩

end IntelHexImage

end UpdiProgrammer.Hex
