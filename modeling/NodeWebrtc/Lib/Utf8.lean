import Mathlib.Data.List.Basic

/-! # UTF-8 with replacement characters

A decoder that reads any bytes: each longest start of a character that does not go on becomes
U+FFFD. Bytes decoded piece by piece give the same text as together exactly when no piece starts
inside a character.
-/

namespace NodeWebrtc.Utf8

/-- A continuation byte. -/
def isTail (b : UInt8) : Bool := 0x80 ≤ b && b ≤ 0xBF

/-- U+FFFD. -/
def replacement : Char := '\uFFFD'

/-- A character of which `need` more bytes are to come, the next one within bounds. -/
structure Pending where
  need : Nat
  low : UInt8
  high : UInt8
  value : Nat
  low_le : 0x80 ≤ low
  high_le : high ≤ 0xBF

/-- After one byte that goes on. -/
def Pending.next (p : Pending) (b : UInt8) : Pending :=
  ⟨p.need - 1, 0x80, 0xBF, p.value * 64 + b.toNat % 64, by decide, by decide⟩

/-- A byte where a character starts: a text at once, or a character that is pending. -/
def first (b : UInt8) : List Char × Option Pending :=
  if b < 0x80 then ([Char.ofNat b.toNat], none)
  else if b < 0xC2 then ([replacement], none)
  else if b < 0xE0 then ([], some ⟨1, 0x80, 0xBF, b.toNat % 32, by decide, by decide⟩)
  else if b < 0xF0 then
    ([], some ⟨2, if b = 0xE0 then 0xA0 else 0x80, if b = 0xED then 0x9F else 0xBF, b.toNat % 16,
      by split <;> decide, by split <;> decide⟩)
  else if b < 0xF5 then
    ([], some ⟨3, if b = 0xF0 then 0x90 else 0x80, if b = 0xF4 then 0x8F else 0xBF, b.toNat % 8,
      by split <;> decide, by split <;> decide⟩)
  else ([replacement], none)

/-- The text of bytes that follow a pending character. -/
def decodeFrom : Option Pending → List UInt8 → List Char
  | none, [] => []
  | some _, [] => [replacement]
  | none, b :: bytes => (first b).1 ++ decodeFrom (first b).2 bytes
  | some p, b :: bytes =>
    if p.low ≤ b ∧ b ≤ p.high then
      if p.need = 1 then Char.ofNat (p.next b).value :: decodeFrom none bytes
      else decodeFrom (some (p.next b)) bytes
    else replacement :: ((first b).1 ++ decodeFrom (first b).2 bytes)

/-- `String::from_utf8_lossy`. -/
def decodeLossy (bytes : List UInt8) : List Char := decodeFrom none bytes

/-- The bytes of a text. -/
def encode (text : List Char) : List UInt8 := text.flatMap String.utf8EncodeChar

/-! ## Bytes -/

variable {b : UInt8}

theorem isTail_iff : isTail b = true ↔ 128 ≤ b.toNat ∧ b.toNat ≤ 191 := by
  simp [isTail, UInt8.le_iff_toNat_le]

variable {p : Pending}

theorem Pending.isTail (h : p.low ≤ b ∧ b ≤ p.high) : isTail b = true := by
  have hlow := p.low_le
  have hhigh := p.high_le
  simp only [UInt8.le_iff_toNat_le, UInt8.reduceToNat] at h hlow hhigh
  exact isTail_iff.mpr (by omega)

theorem first_of_tail (h : Utf8.isTail b = true) : first b = ([replacement], none) := by
  have hb := isTail_iff.mp h
  rw [first, if_neg (by simp [UInt8.lt_iff_toNat_lt]; omega),
    if_pos (by simp [UInt8.lt_iff_toNat_lt]; omega)]

/-! ## Characters -/

variable {n : Nat}

theorem toNat_byte (h : n < 256) : (UInt8.ofNat n).toNat = n := by
  rw [UInt8.toNat_ofNat', Nat.mod_eq_of_lt h]

theorem isTail_byte (n : Nat) : isTail (UInt8.ofNat (n % 64 + 128)) = true := by
  rw [isTail_iff, toNat_byte (by omega)]
  omega

/-- The bytes of a character: one that starts it, and continuation bytes. -/
theorem encodeChar_cases (c : Char) : ∃ b tails, String.utf8EncodeChar c = b :: tails ∧
    isTail b = false ∧ ∀ t ∈ tails, isTail t = true := by
  have hstart : ∀ {n : Nat}, n < 256 → n < 128 ∨ 191 < n → isTail (UInt8.ofNat n) = false := by
    intro n hlt hn
    rw [Bool.eq_false_iff, ne_eq, isTail_iff, toNat_byte hlt]
    omega
  rw [String.utf8EncodeChar]
  split_ifs
  · exact ⟨_, [], rfl, hstart (by omega) (by omega), nofun⟩
  · refine ⟨_, _, rfl, hstart (by omega) (by omega), ?_⟩
    simp only [List.forall_mem_cons, isTail_byte, true_and]
    nofun
  · refine ⟨_, _, rfl, hstart (by omega) (by omega), ?_⟩
    simp only [List.forall_mem_cons, isTail_byte, true_and]
    nofun
  · refine ⟨_, _, rfl, hstart (by omega) (by omega), ?_⟩
    simp only [List.forall_mem_cons, isTail_byte, true_and]
    nofun

theorem decodeFrom_next (hneed : p.need ≠ 1) (hb : p.low.toNat ≤ b.toNat ∧ b.toNat ≤ p.high.toNat)
    (bytes : List UInt8) :
    decodeFrom (some p) (b :: bytes) = decodeFrom (some (p.next b)) bytes := by
  rw [decodeFrom, if_pos (by simpa only [UInt8.le_iff_toNat_le] using hb), if_neg hneed]

theorem decodeFrom_last (hneed : p.need = 1) (hb : p.low.toNat ≤ b.toNat ∧ b.toNat ≤ p.high.toNat)
    (bytes : List UInt8) :
    decodeFrom (some p) (b :: bytes) = Char.ofNat (p.next b).value :: decodeFrom none bytes := by
  rw [decodeFrom, if_pos (by simpa only [UInt8.le_iff_toNat_le] using hb), if_pos hneed]

theorem decodeFrom_first (h : first b = ([], some p)) (bytes : List UInt8) :
    decodeFrom none (b :: bytes) = decodeFrom (some p) bytes := by
  rw [decodeFrom, h]
  rfl

/-- A byte below a bound that the number has. -/
theorem byte_lt_iff (h : n < 256) : UInt8.ofNat n < b ↔ n < b.toNat := by
  rw [UInt8.lt_iff_toNat_lt, toNat_byte h]

theorem byte_eq_iff (h : n < 256) : UInt8.ofNat n = b ↔ n = b.toNat := by
  rw [← UInt8.toNat_inj, toNat_byte h]

theorem first_one (h : n < 0x80) : first (UInt8.ofNat n) = ([Char.ofNat n], none) := by
  have hbyte : n < 256 := by omega
  simp [first, byte_lt_iff hbyte, toNat_byte hbyte, h]

theorem first_two (hlow : 0xC2 ≤ n) (hhigh : n < 0xE0) :
    ∃ p, first (UInt8.ofNat n) = ([], some p) ∧ p.need = 1 ∧ p.value = n % 32 ∧
      p.low.toNat = 0x80 ∧ p.high.toNat = 0xBF := by
  have hbyte : n < 256 := by omega
  have h80 : ¬ n < 128 := by omega
  have hC2 : ¬ n < 194 := by omega
  simp only [first, byte_lt_iff hbyte, toNat_byte hbyte, UInt8.reduceToNat, if_neg h80, if_neg hC2,
    if_pos hhigh]
  exact ⟨_, rfl, rfl, rfl, rfl, rfl⟩

theorem first_three (hlow : 0xE0 ≤ n) (hhigh : n < 0xF0) :
    ∃ p, first (UInt8.ofNat n) = ([], some p) ∧ p.need = 2 ∧ p.value = n % 16 ∧
      p.low.toNat = (if n = 0xE0 then 0xA0 else 0x80) ∧
      p.high.toNat = if n = 0xED then 0x9F else 0xBF := by
  have hbyte : n < 256 := by omega
  have h80 : ¬ n < 128 := by omega
  have hC2 : ¬ n < 194 := by omega
  have hE0 : ¬ n < 224 := by omega
  simp only [first, byte_lt_iff hbyte, byte_eq_iff hbyte, toNat_byte hbyte, UInt8.reduceToNat,
    if_neg h80, if_neg hC2, if_neg hE0, if_pos hhigh]
  exact ⟨_, rfl, rfl, rfl, by split_ifs <;> rfl, by split_ifs <;> rfl⟩

theorem first_four (hlow : 0xF0 ≤ n) (hhigh : n < 0xF5) :
    ∃ p, first (UInt8.ofNat n) = ([], some p) ∧ p.need = 3 ∧ p.value = n % 8 ∧
      p.low.toNat = (if n = 0xF0 then 0x90 else 0x80) ∧
      p.high.toNat = if n = 0xF4 then 0x8F else 0xBF := by
  have hbyte : n < 256 := by omega
  have h80 : ¬ n < 128 := by omega
  have hC2 : ¬ n < 194 := by omega
  have hE0 : ¬ n < 224 := by omega
  have hF0 : ¬ n < 240 := by omega
  simp only [first, byte_lt_iff hbyte, byte_eq_iff hbyte, toNat_byte hbyte, UInt8.reduceToNat,
    if_neg h80, if_neg hC2, if_neg hE0, if_neg hF0, if_pos hhigh]
  exact ⟨_, rfl, rfl, rfl, by split_ifs <;> rfl, by split_ifs <;> rfl⟩

theorem Pending.next_value (p : Pending) (n : Nat) :
    (p.next (UInt8.ofNat (n % 64 + 128))).value = p.value * 64 + n % 64 := by
  show p.value * 64 + (UInt8.ofNat (n % 64 + 128)).toNat % 64 = _
  rw [toNat_byte (by omega)]
  omega

/-- After its second byte a character takes any continuation byte. -/
theorem next_bounds (p : Pending) (b : UInt8) (n : Nat) :
    (p.next b).low.toNat ≤ (UInt8.ofNat (n % 64 + 128)).toNat ∧
      (UInt8.ofNat (n % 64 + 128)).toNat ≤ (p.next b).high.toNat := by
  rw [toNat_byte (by omega)]
  show 128 ≤ n % 64 + 128 ∧ n % 64 + 128 ≤ 191
  omega

/-- Decoding takes back the bytes of a character. -/
theorem decodeFrom_encodeChar (c : Char) (bytes : List UInt8) :
    decodeFrom none (String.utf8EncodeChar c ++ bytes) = c :: decodeFrom none bytes := by
  have hvalid : c.val.toNat < 0xD800 ∨ 0xDFFF < c.val.toNat ∧ c.val.toNat < 0x110000 := c.valid
  have hc : Char.ofNat c.val.toNat = c := Char.ofNat_toNat c
  rw [String.utf8EncodeChar]
  generalize c.val.toNat = v at hvalid hc ⊢
  split_ifs with hone htwo hthree
  · rw [List.singleton_append, decodeFrom, first_one (by omega), hc]
    rfl
  · obtain ⟨p, hp, hneed, hvalue, hlow, hhigh⟩ :=
      first_two (n := v / 64 % 0x20 + 0xC0) (by omega) (by omega)
    rw [List.cons_append, List.singleton_append, decodeFrom_first hp, decodeFrom_last hneed,
      Pending.next_value, hvalue, ← hc]
    · congr 2
      omega
    · rw [hlow, hhigh, toNat_byte (by omega)]
      omega
  · obtain ⟨p, hp, hneed, hvalue, hlow, hhigh⟩ :=
      first_three (n := v / 4096 % 0x10 + 0xE0) (by omega) (by omega)
    rw [List.cons_append, List.cons_append, List.singleton_append, decodeFrom_first hp,
      decodeFrom_next (by omega), decodeFrom_last, Pending.next_value, Pending.next_value,
      hvalue, ← hc]
    · congr 2
      omega
    · show p.need - 1 = 1
      omega
    · exact next_bounds _ _ _
    · rw [hlow, hhigh, toNat_byte (by omega)]
      split_ifs <;> omega
  · obtain ⟨p, hp, hneed, hvalue, hlow, hhigh⟩ :=
      first_four (n := v / 262144 % 0x08 + 0xF0) (by omega) (by omega)
    rw [List.cons_append, List.cons_append, List.cons_append, List.singleton_append,
      decodeFrom_first hp, decodeFrom_next (by omega), decodeFrom_next, decodeFrom_last,
      Pending.next_value, Pending.next_value, Pending.next_value, hvalue, ← hc]
    · congr 2
      omega
    · show p.need - 1 - 1 = 1
      omega
    · exact next_bounds _ _ _
    · show p.need - 1 ≠ 1
      omega
    · exact next_bounds _ _ _
    · rw [hlow, hhigh, toNat_byte (by omega)]
      split_ifs <;> omega

theorem decodeLossy_encode (text : List Char) : decodeLossy (encode text) = text := by
  induction text with
  | nil => rfl
  | cons c text ih =>
    rw [encode, List.flatMap_cons, decodeLossy, decodeFrom_encodeChar]
    exact congrArg (c :: ·) ih

/-! ## Counting characters -/

/-- The bytes that start a character. -/
def starts (bytes : List UInt8) : Nat := bytes.countP fun b => !isTail b

theorem starts_append (bytes bytes' : List UInt8) :
    starts (bytes ++ bytes') = starts bytes + starts bytes' := List.countP_append

theorem starts_cons_le (b : UInt8) (bytes : List UInt8) : starts (b :: bytes) ≤ starts bytes + 1 := by
  rw [starts, List.countP_cons, ← starts]
  split <;> omega

theorem starts_cons_of_tail (h : isTail b = true) (bytes : List UInt8) :
    starts (b :: bytes) = starts bytes := List.countP_cons_of_neg (by simp [h])

theorem starts_encode (text : List Char) : starts (encode text) = text.length := by
  induction text with
  | nil => rfl
  | cons c text ih =>
    obtain ⟨b, tails, hc, hb, htails⟩ := encodeChar_cases c
    have hnone : starts tails = 0 := List.countP_eq_zero.mpr fun t ht => by simp [htails t ht]
    rw [encode, List.flatMap_cons, hc, starts_append, starts, List.countP_cons_of_pos (by simp [hb])]
    change starts tails + 1 + starts (encode text) = _
    rw [hnone, ih, List.length_cons]
    omega

/-- A pending character is one more. -/
def pendingCount : Option Pending → Nat
  | none => 0
  | some _ => 1

theorem first_length (b : UInt8) : (first b).1.length + pendingCount (first b).2 = 1 := by
  rw [first]
  split_ifs <;> rfl

/-- Every byte that starts a character gives one, be it a replacement. -/
theorem starts_le_length (p : Option Pending) (bytes : List UInt8) :
    pendingCount p + starts bytes ≤ (decodeFrom p bytes).length := by
  induction bytes generalizing p with
  | nil => cases p <;> exact Nat.le_refl _
  | cons b bytes ih =>
    have hfirst := first_length b
    have hle := starts_cons_le b bytes
    have hrest := ih (first b).2
    cases p with
    | none =>
      rw [decodeFrom, List.length_append, pendingCount]
      omega
    | some p =>
      rw [decodeFrom, pendingCount]
      split_ifs with hb
      · rw [List.length_cons, starts_cons_of_tail (Pending.isTail hb)]
        have hnone := ih none
        rw [pendingCount] at hnone
        omega
      · rw [starts_cons_of_tail (Pending.isTail hb)]
        exact ih (some (p.next b))
      · rw [List.length_cons, List.length_append]
        omega

/-! ## Pieces -/

/-- A piece that does not start inside a character. -/
def Aligned (bytes : List UInt8) : Prop := ∀ b ∈ bytes.head?, isTail b = false

instance (bytes : List UInt8) : Decidable (Aligned bytes) :=
  inferInstanceAs (Decidable (∀ b ∈ bytes.head?, _))

theorem Aligned.append {bytes bytes' : List UInt8} (h : Aligned bytes) (h' : Aligned bytes') :
    Aligned (bytes ++ bytes') := by
  cases bytes with
  | nil => exact h'
  | cons b bytes => exact h

variable {pieces : List (List UInt8)}

theorem aligned_flatten (h : ∀ piece ∈ pieces, Aligned piece) : Aligned pieces.flatten := by
  induction pieces with
  | nil => exact nofun
  | cons piece pieces ih =>
    obtain ⟨hpiece, hrest⟩ := List.forall_mem_cons.mp h
    exact hpiece.append (ih hrest)

/-- A piece that starts inside a character gives one character too many. -/
theorem starts_lt_length {bytes : List UInt8} (h : ¬ Aligned bytes) :
    starts bytes < (decodeLossy bytes).length := by
  cases bytes with
  | nil => exact absurd nofun h
  | cons b bytes =>
    have hb : isTail b = true := by
      by_contra hb
      refine h fun c hc => ?_
      cases hc
      exact Bool.eq_false_iff.mpr hb
    have hle := starts_le_length none bytes
    rw [pendingCount, Nat.zero_add] at hle
    rw [decodeLossy, decodeFrom, first_of_tail hb, starts_cons_of_tail hb]
    exact Nat.lt_succ_of_le hle

theorem starts_flatten_le (pieces : List (List UInt8)) :
    starts pieces.flatten ≤ (pieces.flatMap decodeLossy).length := by
  induction pieces with
  | nil => exact Nat.le_refl _
  | cons piece pieces ih =>
    have hpiece := starts_le_length none piece
    rw [List.flatten_cons, List.flatMap_cons, starts_append, List.length_append]
    rw [pendingCount, Nat.zero_add] at hpiece
    exact Nat.add_le_add hpiece ih

theorem starts_flatten_lt (h : ¬ ∀ piece ∈ pieces, Aligned piece) :
    starts pieces.flatten < (pieces.flatMap decodeLossy).length := by
  induction pieces with
  | nil => exact absurd nofun h
  | cons piece pieces ih =>
    rw [List.flatten_cons, List.flatMap_cons, starts_append, List.length_append]
    by_cases hpiece : Aligned piece
    · have hle := starts_le_length none piece
      rw [pendingCount, Nat.zero_add] at hle
      exact Nat.add_lt_add_of_le_of_lt hle
        (ih fun hrest => h (List.forall_mem_cons.mpr ⟨hpiece, hrest⟩))
    · exact Nat.add_lt_add_of_lt_of_le (starts_lt_length hpiece) (starts_flatten_le pieces)

/-- A text cut between characters. -/
theorem encode_eq_append {text : List Char} {bytes bytes' : List UInt8}
    (h : encode text = bytes ++ bytes') (haligned : Aligned bytes') :
    ∃ first rest, text = first ++ rest ∧ bytes = encode first ∧ bytes' = encode rest := by
  induction text generalizing bytes with
  | nil =>
    obtain ⟨rfl, rfl⟩ := List.append_eq_nil_iff.mp h.symm
    exact ⟨[], [], rfl, rfl, rfl⟩
  | cons c text ih =>
    have hsplit : String.utf8EncodeChar c ++ encode text = bytes ++ bytes' := h
    rcases List.append_eq_append_iff.mp hsplit with ⟨more, rfl, hrest⟩ | ⟨more, hc, hrest⟩
    · obtain ⟨first, rest, rfl, rfl, rfl⟩ := ih hrest
      exact ⟨c :: first, rest, rfl, rfl, rfl⟩
    · cases bytes with
      | nil => exact ⟨[], c :: text, rfl, rfl, h.symm⟩
      | cons b bytes =>
        obtain ⟨start, tails, henc, -, htails⟩ := encodeChar_cases c
        rw [henc, List.cons_append, List.cons.injEq] at hc
        cases more with
        | nil =>
          rw [List.append_nil] at hc
          refine ⟨[c], text, rfl, ?_, hrest⟩
          rw [encode, List.flatMap_singleton, henc, hc.1, hc.2]
        | cons t more =>
          have ht := htails t (hc.2 ▸ List.mem_append_right _ List.mem_cons_self)
          rw [hrest] at haligned
          cases ht.symm.trans (haligned t rfl)

/-- Pieces between characters are decoded to the text. -/
theorem flatMap_decodeLossy {text : List Char} (h : encode text = pieces.flatten)
    (haligned : ∀ piece ∈ pieces, Aligned piece) :
    pieces.flatMap decodeLossy = text := by
  induction pieces generalizing text with
  | nil =>
    have hdecode := decodeLossy_encode text
    rw [h] at hdecode
    exact hdecode
  | cons piece pieces ih =>
    obtain ⟨hpiece, hrest⟩ := List.forall_mem_cons.mp haligned
    obtain ⟨first, rest, rfl, rfl, hbytes⟩ := encode_eq_append h (aligned_flatten hrest)
    rw [List.flatMap_cons, decodeLossy_encode, ih hbytes.symm hrest]

/-- Decoded piece by piece a text is intact exactly when no piece starts inside a character. -/
theorem flatMap_decodeLossy_iff {text : List Char} (h : encode text = pieces.flatten) :
    pieces.flatMap decodeLossy = text ↔ ∀ piece ∈ pieces, Aligned piece := by
  refine ⟨fun hintact => ?_, flatMap_decodeLossy h⟩
  by_contra hnot
  have hlt := starts_flatten_lt hnot
  rw [hintact, ← h, starts_encode] at hlt
  exact Nat.lt_irrefl _ hlt

end NodeWebrtc.Utf8
