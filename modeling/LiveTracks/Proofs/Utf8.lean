import LiveTracks.Proofs.TextBytes
import Mathlib.Data.List.Forall2

/-!
# Well-formed UTF-8

Which bytes are a text. A character is written as one to four bytes, and for each number of bytes the first two of
them leave out what would be written shorter, the surrogates and what lies above the last code point
(`sequences`). The bytes of texts are exactly the rows of such sequences (`isUtf8_iff`), and reading bytes as a
text succeeds on exactly these (`fromUTF8?_eq_some_iff`).
-/

namespace LiveTracks.Json

/-- The least and the greatest value of each byte of a character, as the Unicode standard tabulates them. -/
def sequences : List (List (Nat × Nat)) :=
  [[(0x00, 0x7F)],
    [(0xC2, 0xDF), (0x80, 0xBF)],
    [(0xE0, 0xE0), (0xA0, 0xBF), (0x80, 0xBF)],
    [(0xE1, 0xEC), (0x80, 0xBF), (0x80, 0xBF)],
    [(0xED, 0xED), (0x80, 0x9F), (0x80, 0xBF)],
    [(0xEE, 0xEF), (0x80, 0xBF), (0x80, 0xBF)],
    [(0xF0, 0xF0), (0x90, 0xBF), (0x80, 0xBF), (0x80, 0xBF)],
    [(0xF1, 0xF3), (0x80, 0xBF), (0x80, 0xBF), (0x80, 0xBF)],
    [(0xF4, 0xF4), (0x80, 0x8F), (0x80, 0xBF), (0x80, 0xBF)]]

def Within (n : Nat) (range : Nat × Nat) : Prop := range.1 ≤ n ∧ n ≤ range.2

def IsSequence (s : Bytes) : Prop := ∃ ranges ∈ sequences, List.Forall₂ Within (s.map UInt8.toNat) ranges

def IsUtf8 (bytes : Bytes) : Prop :=
  ∃ rows : List Bytes, (∀ s ∈ rows, IsSequence s) ∧ rows.flatten = bytes

/-! ### One character -/

section Octets

variable {a b c d v : Nat}

theorem octets_of_two (ha : 0xC2 ≤ a) (ha' : a ≤ 0xDF) (hb : 0x80 ≤ b) (hb' : b ≤ 0xBF)
    (hv : v = (a - 0xC0) * 64 + (b - 0x80)) : octets v = [a, b] := by
  rw [octets, if_neg (by omega), if_pos (by omega)]
  simp only [List.cons.injEq, and_true]
  omega

theorem octets_of_three (ha : 0xE0 ≤ a) (ha' : a ≤ 0xEF) (hb : 0x80 ≤ b) (hb' : b ≤ 0xBF) (hc : 0x80 ≤ c)
    (hc' : c ≤ 0xBF) (hv : v = (a - 0xE0) * 4096 + (b - 0x80) * 64 + (c - 0x80)) (hlong : 0x7FF < v) :
    octets v = [a, b, c] := by
  rw [octets, if_neg (by omega), if_neg (by omega), if_pos (by omega)]
  simp only [List.cons.injEq, and_true]
  omega

theorem octets_of_four (ha : 0xF0 ≤ a) (hb : 0x80 ≤ b) (hb' : b ≤ 0xBF) (hc : 0x80 ≤ c)
    (hc' : c ≤ 0xBF) (hd : 0x80 ≤ d) (hd' : d ≤ 0xBF)
    (hv : v = (a - 0xF0) * 262144 + (b - 0x80) * 4096 + (c - 0x80) * 64 + (d - 0x80)) (hlong : 0xFFFF < v) :
    octets v = [a, b, c, d] := by
  rw [octets, if_neg (by omega), if_neg (by omega), if_neg (by omega)]
  simp only [List.cons.injEq, and_true]
  omega

end Octets

theorem exists_octets {l : List Nat} {ranges : List (Nat × Nat)} (hranges : ranges ∈ sequences)
    (h : List.Forall₂ Within l ranges) : ∃ v, v.isValidChar ∧ l = octets v := by
  simp only [sequences, List.mem_cons, List.not_mem_nil, or_false] at hranges
  rcases hranges with rfl | rfl | rfl | rfl | rfl | rfl | rfl | rfl | rfl <;>
    simp only [List.forall₂_cons_right_iff, List.forall₂_nil_right_iff, Within] at h
  · obtain ⟨a, _, ha, rfl, rfl⟩ := h
    exact ⟨a, .inl (by omega), by rw [octets, if_pos ha.2]⟩
  · obtain ⟨a, _, ha, ⟨b, _, hb, rfl, rfl⟩, rfl⟩ := h
    exact ⟨_, .inl (by omega), (octets_of_two ha.1 ha.2 hb.1 hb.2 rfl).symm⟩
  iterate 4
    · obtain ⟨a, _, ha, ⟨b, _, hb, ⟨c, _, hc, rfl, rfl⟩, rfl⟩, rfl⟩ := h
      exact ⟨_, by unfold Nat.isValidChar; omega,
        (octets_of_three (by omega) (by omega) (by omega) (by omega) hc.1 hc.2 rfl (by omega)).symm⟩
  iterate 3
    · obtain ⟨a, _, ha, ⟨b, _, hb, ⟨c, _, hc, ⟨d, _, hd, rfl, rfl⟩, rfl⟩, rfl⟩, rfl⟩ := h
      exact ⟨_, by unfold Nat.isValidChar; omega,
        (octets_of_four (by omega) (by omega) (by omega) hc.1 hc.2 hd.1 hd.2 rfl (by omega)).symm⟩

theorem exists_ranges {v : Nat} (hv : v.isValidChar) : ∃ ranges ∈ sequences, List.Forall₂ Within (octets v) ranges := by
  have hvalid : v < 0xD800 ∨ 0xDFFF < v ∧ v < 0x110000 := hv
  unfold octets
  split_ifs <;> simp [sequences, Within] <;> omega

theorem isSequence_iff {s : Bytes} : IsSequence s ↔ ∃ c, String.utf8EncodeChar c = s := by
  constructor
  · intro h
    obtain ⟨ranges, hranges, h⟩ := h
    obtain ⟨v, hv, hs⟩ := exists_octets hranges h
    have hnat : (Char.ofNatAux v hv).toNat = v := rfl
    refine ⟨Char.ofNatAux v hv, List.map_injective_iff.2 (fun _ _ => UInt8.toNat_inj.1) ?_⟩
    rw [toNat_encode, hnat, hs]
  · rintro ⟨c, rfl⟩
    rw [IsSequence, toNat_encode]
    exact exists_ranges c.valid

/-! ### Texts -/

theorem isUtf8_iff {bytes : Bytes} : IsUtf8 bytes ↔ ∃ text, bytesOf text = bytes := by
  constructor
  · rintro ⟨rows, hrows, rfl⟩
    have hchars : ∃ l : List Char, l.flatMap String.utf8EncodeChar = rows.flatten := by
      induction rows with
      | nil => exact ⟨[], rfl⟩
      | cons s rows ih =>
        obtain ⟨l, hl⟩ := ih fun s' hs => hrows s' (List.mem_cons_of_mem _ hs)
        obtain ⟨c, hc⟩ := isSequence_iff.1 (hrows s List.mem_cons_self)
        exact ⟨c :: l, by rw [List.flatMap_cons, hl, hc, List.flatten_cons]⟩
    obtain ⟨l, hl⟩ := hchars
    exact ⟨String.ofList l, by rw [bytesOf_ofList, hl]⟩
  · rintro ⟨text, rfl⟩
    refine ⟨text.toList.map String.utf8EncodeChar, fun s hs => ?_, ?_⟩
    · obtain ⟨c, -, rfl⟩ := List.mem_map.1 hs
      exact isSequence_iff.2 ⟨c, rfl⟩
    · rw [bytesOf_eq_flatMap, List.flatMap_def]

theorem fromUTF8?_eq_some_iff {bytes : Bytes} {text : String} :
    String.fromUTF8? ⟨bytes.toArray⟩ = some text ↔ bytesOf text = bytes := by
  have hbytes : bytesOf text = bytes ↔ text.toByteArray = ⟨bytes.toArray⟩ := by
    rw [bytesOf, toList_eq_data_toList, String.toUTF8_eq_toByteArray, ByteArray.ext_iff, ← Array.toList_inj]
  rw [hbytes, String.fromUTF8?]
  constructor
  · intro h
    split at h
    · cases h
      rfl
    · cases h
  · intro h
    have hvalid := text.isValidUTF8
    rw [h] at hvalid
    rw [dif_pos hvalid, Option.some.injEq, ← String.toByteArray_inj, h]
    rfl

instance (bytes : Bytes) : Decidable (IsUtf8 bytes) :=
  decidable_of_iff ((String.fromUTF8? ⟨bytes.toArray⟩).isSome = true) <| by
    rw [Option.isSome_iff_exists, isUtf8_iff]
    exact exists_congr fun _ => fromUTF8?_eq_some_iff

-- too long for its value, a surrogate, above the last code point, and cut off
example : ∀ bytes ∈ [[0xC0, 0x80], [0xED, 0xA0, 0x80], [0xF4, 0x90, 0x80, 0x80], [0xE2, 0x82]],
    ¬ IsUtf8 bytes := by decide +kernel

end LiveTracks.Json
