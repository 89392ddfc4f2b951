import Primer.Run
import Primer.Text.Utf8

/-! The octets of a file that holds a text. Decoding gives the text back, character by
character, and a text without carriage returns is read as it was written. -/
namespace Primer

/-- The octets of a text in a file. -/
def fileOctets (text : String) : List UInt8 := text.toUTF8.data.toList

theorem fileOctets_eq (text : String) : fileOctets text = text.toList.flatMap String.utf8EncodeChar := by
  have encoded : text.toUTF8 = text.toList.utf8Encode := String.utf8Encode_toList.symm
  rw [fileOctets, encoded, List.utf8Encode, List.toList_data_toByteArray]

theorem decodeFrom_last {pos a : Nat} {q : Sequence} {rest : List Nat} (low : q.low ≤ a)
    (high : a ≤ q.high) (owed : q.owed = 1) :
    decodeFrom pos (some q) (a :: rest) = do
      return Char.ofNat (q.value * 64 + a % 64) :: (← decodeFrom (pos + 1) none rest) := by
  have within : (a < q.low || q.high < a) = false := by simp; omega
  simp [decodeFrom, within, owed]

theorem decodeFrom_more {pos a : Nat} {q : Sequence} {rest : List Nat} (low : q.low ≤ a)
    (high : a ≤ q.high) (owed : 1 < q.owed) :
    decodeFrom pos (some q) (a :: rest) = decodeFrom (pos + 1)
      (some ⟨q.first, q.pos, q.owed - 1, 0x80, 0xbf, q.value * 64 + a % 64⟩) rest := by
  have within : (a < q.low || q.high < a) = false := by simp; omega
  have several : ¬ q.owed ≤ 1 := by omega
  simp [decodeFrom, within, several]

theorem decodeFrom_first {pos a owed low high : Nat} {rest : List Nat} (large : 0x80 ≤ a)
    (starts : octetsAfter? a = some (owed, low, high)) :
    decodeFrom pos none (a :: rest) = decodeFrom (pos + 1)
      (some ⟨a, pos, owed, low, high, firstPayload owed a⟩) rest := by
  have several : ¬ a < 0x80 := by omega
  simp [decodeFrom, several, starts]

theorem octetsAfter_two {a : Nat} (low : 0xc2 ≤ a) (high : a ≤ 0xdf) :
    octetsAfter? a = some (1, 0x80, 0xbf) := by
  simp [octetsAfter?, low, high]

/-- The sequences of three octets leave out those of fewer and the surrogates. -/
theorem octetsAfter_three {a b : Nat} (low : 0xe0 ≤ a) (high : a ≤ 0xef) (first : 0x80 ≤ b)
    (last : b ≤ 0xbf) (long : a = 0xe0 → 0xa0 ≤ b) (paired : a = 0xed → b ≤ 0x9f) :
    ∃ least most, octetsAfter? a = some (2, least, most) ∧ least ≤ b ∧ b ≤ most := by
  have other : ¬ a ≤ 0xdf := by omega
  simp only [octetsAfter?, other, decide_false, Bool.and_false, Bool.false_eq_true, if_false]
  split
  · rename_i e0
    exact ⟨_, _, rfl, long e0, last⟩
  · rename_i above
    split
    · rename_i ed
      exact ⟨_, _, rfl, first, paired ed⟩
    · have inside : 0xe1 ≤ a := by omega
      simp only [inside, high, decide_true, Bool.and_self, if_true]
      exact ⟨_, _, rfl, first, last⟩

theorem octetsAfter_four {a b : Nat} (low : 0xf0 ≤ a) (high : a ≤ 0xf4) (first : 0x80 ≤ b)
    (last : b ≤ 0xbf) (long : a = 0xf0 → 0x90 ≤ b) (small : a = 0xf4 → b ≤ 0x8f) :
    ∃ least most, octetsAfter? a = some (3, least, most) ∧ least ≤ b ∧ b ≤ most := by
  have two : ¬ a ≤ 0xdf := by omega
  have three : ¬ a ≤ 0xef := by omega
  have e0 : a ≠ 0xe0 := by omega
  have ed : a ≠ 0xed := by omega
  simp only [octetsAfter?, two, three, e0, ed, decide_false, Bool.and_false, Bool.false_eq_true,
    if_false]
  split
  · rename_i f0
    exact ⟨_, _, rfl, long f0, last⟩
  · split
    · rename_i f4
      exact ⟨_, _, rfl, first, small f4⟩
    · have inside : 0xf1 ≤ a ∧ a ≤ 0xf3 := by omega
      simp only [inside, decide_true, Bool.and_self, if_true]
      exact ⟨_, _, rfl, first, last⟩

/-- The octets of a character, as numbers. -/
def charOctets (c : Char) : List Nat := (String.utf8EncodeChar c).map UInt8.toNat

theorem charOctets_one {c : Char} (one : c.toNat ≤ 0x7f) : charOctets c = [c.toNat] := by
  simp only [charOctets, String.utf8EncodeChar, Char.toNat_val, one, if_true, List.map,
    UInt8.toNat_ofNat', List.cons.injEq, and_true]
  omega

theorem charOctets_two {c : Char} (one : ¬ c.toNat ≤ 0x7f) (two : c.toNat ≤ 0x7ff) :
    charOctets c = [c.toNat / 64 + 0xc0, c.toNat % 64 + 0x80] := by
  simp only [charOctets, String.utf8EncodeChar, Char.toNat_val, one, two, if_true, if_false, List.map,
    UInt8.toNat_ofNat', List.cons.injEq, and_true]
  omega

theorem charOctets_three {c : Char} (two : ¬ c.toNat ≤ 0x7ff) (three : c.toNat ≤ 0xffff) :
    charOctets c = [c.toNat / 4096 + 0xe0, c.toNat / 64 % 64 + 0x80, c.toNat % 64 + 0x80] := by
  have one : ¬ c.toNat ≤ 0x7f := by omega
  simp only [charOctets, String.utf8EncodeChar, Char.toNat_val, one, two, three, if_true, if_false,
    List.map, UInt8.toNat_ofNat', List.cons.injEq, and_true]
  omega

theorem charOctets_four {c : Char} (three : ¬ c.toNat ≤ 0xffff) (four : c.toNat ≤ 0x10ffff) :
    charOctets c = [c.toNat / 262144 + 0xf0, c.toNat / 4096 % 64 + 0x80, c.toNat / 64 % 64 + 0x80,
      c.toNat % 64 + 0x80] := by
  have two : ¬ c.toNat ≤ 0x7ff := by omega
  have one : ¬ c.toNat ≤ 0x7f := by omega
  simp only [charOctets, String.utf8EncodeChar, Char.toNat_val, one, two, three, if_false, List.map,
    UInt8.toNat_ofNat', List.cons.injEq, and_true]
  omega

theorem firstPayload_eq (a : Nat) :
    firstPayload 1 a = a % 32 ∧ firstPayload 2 a = a % 16 ∧ firstPayload 3 a = a % 8 :=
  ⟨rfl, rfl, rfl⟩

theorem ofNat_of_eq {n : Nat} {c : Char} (same : n = c.toNat) : Char.ofNat n = c :=
  same ▸ Char.ofNat_toNat c

/-- A character is decoded from its octets, whatever follows them. -/
theorem decodeFrom_char (c : Char) (pos : Nat) (rest : List Nat) :
    ∃ next, decodeFrom pos none (charOctets c ++ rest) = do
      return c :: (← decodeFrom next none rest) := by
  have scalar : c.toNat < 0xd800 ∨ 0xdfff < c.toNat ∧ c.toNat < 0x110000 := c.valid
  by_cases one : c.toNat ≤ 0x7f
  · have ascii : c.toNat < 0x80 := Nat.lt_succ_of_le one
    refine ⟨pos + 1, ?_⟩
    rw [charOctets_one one]
    simp [decodeFrom, ascii]
  by_cases two : c.toNat ≤ 0x7ff
  · have starts : octetsAfter? (c.toNat / 64 + 0xc0) = some (1, 0x80, 0xbf) :=
      octetsAfter_two (by omega) (by omega)
    refine ⟨pos + 2, ?_⟩
    rw [charOctets_two one two, List.cons_append, decodeFrom_first (by omega) starts,
      List.cons_append, decodeFrom_last (by simp) (by simp; omega) rfl, ofNat_of_eq]
    · rfl
    · simp only [firstPayload_eq]
      omega
  by_cases three : c.toNat ≤ 0xffff
  · obtain ⟨least, most, starts, low, high⟩ :=
      octetsAfter_three (a := c.toNat / 4096 + 0xe0) (b := c.toNat / 64 % 64 + 0x80)
        (by omega) (by omega) (by omega) (by omega) (by omega) (by omega)
    refine ⟨pos + 3, ?_⟩
    rw [charOctets_three two three, List.cons_append, decodeFrom_first (by omega) starts,
      List.cons_append, decodeFrom_more low high (by simp), List.cons_append,
      decodeFrom_last (by simp) (by simp; omega) rfl, ofNat_of_eq]
    · rfl
    · simp only [firstPayload_eq]
      omega
  · obtain ⟨least, most, starts, low, high⟩ :=
      octetsAfter_four (a := c.toNat / 262144 + 0xf0) (b := c.toNat / 4096 % 64 + 0x80)
        (by omega) (by omega) (by omega) (by omega) (by omega) (by omega)
    refine ⟨pos + 4, ?_⟩
    rw [charOctets_four three (by omega), List.cons_append, decodeFrom_first (by omega) starts,
      List.cons_append, decodeFrom_more low high (by simp), List.cons_append,
      decodeFrom_more (by simp) (by simp; omega) (by simp), List.cons_append,
      decodeFrom_last (by simp) (by simp; omega) rfl, ofNat_of_eq]
    · rfl
    · simp only [firstPayload_eq]
      omega

theorem decodeFrom_chars (text : List Char) (pos : Nat) :
    decodeFrom pos none (text.flatMap charOctets) = .ok text := by
  induction text generalizing pos with
  | nil => rfl
  | cons c text ih =>
    obtain ⟨next, decoded⟩ := decodeFrom_char c pos (text.flatMap charOctets)
    rw [List.flatMap_cons, decoded, ih]
    rfl

/-- A text is decoded from its octets. -/
theorem decodeOctets_fileOctets (text : String) : decodeOctets (fileOctets text) = .ok text.toList := by
  rw [decodeOctets, fileOctets_eq, List.map_flatMap]
  exact decodeFrom_chars text.toList 0

theorem unifyNewlines_of_none {text : List Char} (none : '\r' ∉ text) : unifyNewlines text = text := by
  induction text with
  | nil => rfl
  | cons c text ih =>
    have here : c ≠ '\r' := fun same => none (same ▸ List.mem_cons_self)
    have later : '\r' ∉ text := fun inside => none (List.mem_cons_of_mem c inside)
    rw [unifyNewlines, if_neg here, ih later]
    rintro _ same -
    exact here same

end Primer
