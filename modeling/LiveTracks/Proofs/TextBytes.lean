import LiveTracks.Json.Token
import Mathlib.Data.String.Basic

/-!
# The bytes of a text

A text is written in UTF-8, character after character (`bytesOf_eq_flatMap`). Its bytes tell which text it is
(`bytesOf_inj`), and two texts are in the order of their bytes (`lt_iff_bytesOf_lt`): the first byte in which two
characters differ is the lesser one in the lesser character, and no character is written as a beginning of another.
-/

namespace LiveTracks.Json

/-! ### Character after character -/

theorem toList_loop_eq (a : ByteArray) (i : Nat) (r : Bytes) :
    ByteArray.toList.loop a i r = r.reverse ++ a.data.toList.drop i := by
  fun_induction ByteArray.toList.loop a i r with
  | case1 i r h ih =>
    have hi : i < a.data.toList.length := by simpa using h
    rw [ih, List.drop_eq_getElem_cons hi]
    simp [ByteArray.get!, h]
  | case2 i r h => simp [List.drop_eq_nil_of_le (show a.data.toList.length ≤ i by simpa using h)]

theorem toList_eq_data_toList (a : ByteArray) : a.toList = a.data.toList := by
  rw [ByteArray.toList, toList_loop_eq, List.reverse_nil, List.nil_append, List.drop_zero]

theorem bytesOf_ofList (l : List Char) : bytesOf (String.ofList l) = l.flatMap String.utf8EncodeChar := by
  rw [bytesOf, toList_eq_data_toList, String.toUTF8_eq_toByteArray, String.toByteArray_ofList, List.utf8Encode,
    List.toList_data_toByteArray]

theorem bytesOf_eq_flatMap (s : String) : bytesOf s = s.toList.flatMap String.utf8EncodeChar := by
  rw [← bytesOf_ofList, String.ofList_toList]

theorem bytesOf_append (s t : String) : bytesOf (s ++ t) = bytesOf s ++ bytesOf t := by
  simp only [bytesOf_eq_flatMap, String.toList_append, List.flatMap_append]

theorem bytesOf_inj {s t : String} : bytesOf s = bytesOf t ↔ s = t := by
  refine ⟨fun h => String.toByteArray_inj.1 ?_, congrArg bytesOf⟩
  rw [bytesOf, bytesOf, toList_eq_data_toList, toList_eq_data_toList, Array.toList_inj] at h
  exact ByteArray.ext h

/-! ### The order of the bytes -/

/-- The bytes of a code point as numbers: those behind the first carry six bits each. -/
def octets (v : Nat) : List Nat :=
  if v ≤ 0x7F then [v]
  else if v ≤ 0x7FF then [v / 64 + 0xC0, v % 64 + 0x80]
  else if v ≤ 0xFFFF then [v / 4096 + 0xE0, v / 64 % 64 + 0x80, v % 64 + 0x80]
  else [v / 262144 + 0xF0, v / 4096 % 64 + 0x80, v / 64 % 64 + 0x80, v % 64 + 0x80]

theorem toNat_encode (c : Char) : (String.utf8EncodeChar c).map UInt8.toNat = octets c.toNat := by
  have hc : c.val.toNat < 0x110000 := by
    have hvalid := c.valid
    simp only [UInt32.isValidChar, Nat.isValidChar] at hvalid
    omega
  simp only [String.utf8EncodeChar, octets, Char.toNat]
  split_ifs <;> simp only [List.map_cons, List.map_nil, UInt8.toNat_ofNat', List.cons.injEq, and_true] <;> omega

/-- Of two code points the lesser one has the lesser byte where their bytes differ first. -/
theorem octets_append_lt {v w : Nat} (h : v < w) (s t : List Nat) : octets v ++ s < octets w ++ t := by
  unfold octets
  split_ifs <;> simp only [List.cons_append, List.nil_append, List.cons_lt_cons_iff] <;> omega

theorem lt_of_toNat_lt {a b : Bytes} (h : a.map UInt8.toNat < b.map UInt8.toNat) : a < b := by
  induction a generalizing b with
  | nil =>
    cases b with
    | nil => exact absurd h (List.lt_irrefl _)
    | cons y b => exact List.nil_lt_cons ..
  | cons x a ih =>
    cases b with
    | nil => exact absurd h (List.not_lt_nil _)
    | cons y b =>
      rw [List.map_cons, List.map_cons, List.cons_lt_cons_iff] at h
      rw [List.cons_lt_cons_iff]
      exact h.imp UInt8.lt_iff_toNat_lt.2 fun h => ⟨UInt8.toNat_inj.1 h.1, ih h.2⟩

/-- Whatever follows them, characters are ordered by their bytes. -/
theorem encode_append_lt {c d : Char} (h : c < d) (s t : Bytes) :
    String.utf8EncodeChar c ++ s < String.utf8EncodeChar d ++ t := by
  apply lt_of_toNat_lt
  rw [List.map_append, List.map_append, toNat_encode, toNat_encode]
  exact octets_append_lt h _ _

theorem flatMap_encode_lt {l m : List Char} (h : l < m) :
    l.flatMap String.utf8EncodeChar < m.flatMap String.utf8EncodeChar := by
  induction h with
  | nil =>
    rename_i d m
    obtain ⟨b, bs, hd⟩ := List.exists_cons_of_ne_nil (@String.utf8EncodeChar_ne_nil d)
    rw [List.flatMap_cons, hd]
    exact List.nil_lt_cons ..
  | rel hcd => exact encode_append_lt hcd _ _
  | cons _ ih =>
    rw [List.flatMap_cons, List.flatMap_cons]
    exact List.append_left_lt ih

theorem lt_iff_bytesOf_lt {s t : String} : s < t ↔ bytesOf s < bytesOf t := by
  have mono : ∀ {s t : String}, s < t → bytesOf s < bytesOf t := fun {s t} h => by
    rw [bytesOf_eq_flatMap, bytesOf_eq_flatMap]
    exact flatMap_encode_lt (String.lt_iff_toList_lt.1 h)
  refine ⟨mono, fun h => ?_⟩
  rcases lt_trichotomy s t with hst | rfl | hts
  · exact hst
  · exact absurd h (List.lt_irrefl _)
  · exact absurd h (List.lt_asymm (mono hts))

end LiveTracks.Json
