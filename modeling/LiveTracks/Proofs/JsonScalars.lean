import LiveTracks.Json.Number
import LiveTracks.Json.String
import LiveTracks.Proofs.JsonGrammar
import LiveTracks.Proofs.TextBytes

/-!
# Reading strings and numbers

What the readers of scalars make of a written string or number, whatever follows it. A string is decoded to the bytes
of its text (`readString_letters`). A number is split at its point and its power of ten, if what follows cannot belong
to it (`readNumeral_magnitude`), and it is a word exactly if it is plain and fits 64 bits (`number_eq_natural_iff`).
-/

namespace LiveTracks.Json

/-! ### Blanks -/

theorem isBlank_byte (b : Blank) : isBlank b.byte = true := by cases b <;> rfl

theorem skipBlanks_blanks (bs : List Blank) (s : Bytes) : skipBlanks (bs.map Blank.byte ++ s) = skipBlanks s := by
  refine List.dropWhile_append_of_pos fun b hb => ?_
  obtain ⟨blank, -, rfl⟩ := List.mem_map.1 hb
  exact isBlank_byte blank

theorem skipBlanks_cons {b : UInt8} (h : isBlank b = false) (s : Bytes) : skipBlanks (b :: s) = b :: s :=
  List.dropWhile_cons_of_neg (by rw [h]; exact Bool.false_ne_true)

/-- A number begins with a minus or with a digit: whatever holds of these holds of what it begins with. -/
theorem Literal.lead_of (p : UInt8 → Prop) (hminus : p minus) (hdigit : ∀ d, p (digitByte d)) (x : Literal) :
    p x.lead := by
  rw [Literal.lead]
  split
  · exact hminus
  · exact hdigit _

theorem Literal.exists_bytes (x : Literal) : ∃ bs, x.bytes = x.lead :: bs := by
  rw [Literal.bytes, Literal.lead]
  split <;> exact ⟨_, rfl⟩

theorem Token.exists_bytes (t : Token) : ∃ b bs, t.bytes = b :: bs ∧ isBlank b = false := by
  cases t with
  | boolean b => cases b <;> exact ⟨_, _, rfl, rfl⟩
  | number x =>
    obtain ⟨bs, hx⟩ := x.exists_bytes
    exact ⟨x.lead, bs, hx, x.lead_of (isBlank · = false) (by decide) (by decide)⟩
  | _ => exact ⟨_, _, rfl, rfl⟩

variable {t : Token} {ts : List Token} {s : Bytes}

theorem skipBlanks_token (t : Token) (s : Bytes) : skipBlanks (t.bytes ++ s) = t.bytes ++ s := by
  obtain ⟨b, bs, ht, hb⟩ := t.exists_bytes
  rw [ht, List.cons_append, skipBlanks_cons hb]

theorem Written.skipBlanks_eq (h : Written (t :: ts) s) : ∃ s', skipBlanks s = t.bytes ++ s' ∧ Written ts s' := by
  cases h with
  | token bs t h => exact ⟨_, by rw [skipBlanks_blanks, skipBlanks_token], h⟩

theorem Written.skipBlanks_eq_nil (h : Written [] s) : skipBlanks s = [] := by
  cases h with
  | blanks bs =>
    rw [← List.append_nil (bs.map Blank.byte), skipBlanks_blanks]
    rfl

/-! ### Strings -/

/-- A byte that stands for itself in a string. -/
def IsShown (b : UInt8) : Prop := b ≠ quote ∧ b ≠ backslash ∧ ¬ b < 0x20

theorem isShown_of_le {b : UInt8} (h : 0x80 ≤ b.toNat) : IsShown b := by
  refine ⟨fun hb => ?_, fun hb => ?_, fun hb => ?_⟩
  · rw [hb] at h
    exact absurd h (by decide)
  · rw [hb] at h
    exact absurd h (by decide)
  · have hlt : b.toNat < 0x20 := UInt8.lt_iff_toNat_lt.1 hb
    omega

theorem le_of_mem_octets {v n : Nat} (hv : 0x7F < v) (h : n ∈ octets v) : 0x80 ≤ n := by
  unfold octets at h
  split_ifs at h with h1 <;> simp only [List.mem_cons, List.not_mem_nil, or_false] at h <;> omega

theorem isShown_encode {c : Char} (hshown : 0x20 ≤ c.toNat) (hquote : c ≠ '\x22') (hbackslash : c ≠ '\\') :
    ∀ b ∈ String.utf8EncodeChar c, IsShown b := by
  intro b hb
  have hoctet : b.toNat ∈ octets c.toNat := by
    rw [← toNat_encode]
    exact List.mem_map_of_mem hb
  by_cases hc : c.toNat ≤ 0x7F
  · rw [octets, if_pos hc, List.mem_singleton] at hoctet
    refine ⟨fun h => hquote (Char.toNat_inj.1 ?_), fun h => hbackslash (Char.toNat_inj.1 ?_), fun h => ?_⟩
    · rw [← hoctet, h]
      rfl
    · rw [← hoctet, h]
      rfl
    · have hlt : b.toNat < 0x20 := UInt8.lt_iff_toNat_lt.1 h
      omega
  · exact isShown_of_le (le_of_mem_octets (Nat.lt_of_not_le hc) hoctet)

theorem readString_shown {bs : Bytes} (h : ∀ b ∈ bs, IsShown b) (s : Bytes) :
    readString (bs ++ s) = (readString s).andThen fun ds rest => .ok (bs ++ ds, rest) := by
  induction bs with
  | nil =>
    rw [List.nil_append]
    cases readString s <;> rfl
  | cons b bs ih =>
    obtain ⟨hquote, hbackslash, hshown⟩ := h b List.mem_cons_self
    rw [List.cons_append, readString, if_neg hquote, if_neg hbackslash, if_neg hshown,
      ih fun b' hb' => h b' (List.mem_cons_of_mem b hb')]
    cases readString s <;> rfl

theorem skipString_shown {bs : Bytes} (h : ∀ b ∈ bs, IsShown b) (s : Bytes) : skipString (bs ++ s) = skipString s := by
  induction bs with
  | nil => rfl
  | cons b bs ih =>
    obtain ⟨hquote, hbackslash, hshown⟩ := h b List.mem_cons_self
    rw [List.cons_append, skipString, if_neg hquote, if_neg hbackslash, if_neg hshown]
    exact ih fun b' hb' => h b' (List.mem_cons_of_mem b hb')

theorem hexValue?_byte (d : HexDigit) : hexValue? d.byte = some d.value.val := by
  obtain ⟨value, capital⟩ := d
  revert value capital
  decide

theorem readHex_digits (u : CodeUnit) (s : Bytes) :
    readHex (u.digits ++ s) = .ok (u.value, s) := by
  have hvalue : hexValue4? u.first.byte u.second.byte u.third.byte u.fourth.byte = some u.value := by
    simp only [hexValue4?, hexValue?_byte, CodeUnit.value, bind, Option.bind_some, pure, Option.some.injEq]
    omega
  simp only [CodeUnit.digits, List.cons_append, List.nil_append, readHex, hvalue]

theorem isHighSurrogate_iff {n : Nat} : isHighSurrogate n = true ↔ 0xD800 ≤ n ∧ n ≤ 0xDBFF := by
  simp only [isHighSurrogate, Bool.and_eq_true, decide_eq_true_eq]

theorem isLowSurrogate_iff {n : Nat} : isLowSurrogate n = true ↔ 0xDC00 ≤ n ∧ n ≤ 0xDFFF := by
  simp only [isLowSurrogate, Bool.and_eq_true, decide_eq_true_eq]

theorem readEscape_short (e : Short) (s : Bytes) :
    readEscape (e.letter :: s) = .ok (String.utf8EncodeChar e.char, s) := by
  cases e <;> rfl

theorem readUnicode_code {u : CodeUnit} (hhigh : ¬ u.IsHigh) (hlow : ¬ u.IsLow) (s : Bytes) :
    readUnicode (u.digits ++ s) =
      .ok (String.utf8EncodeChar (Char.ofNat u.value), s) := by
  rw [readUnicode, readHex_digits, Reading.andThen_ok, if_neg (mt isLowSurrogate_iff.1 hlow),
    if_neg (mt isHighSurrogate_iff.1 hhigh)]
  rfl

theorem readUnicode_pair {high low : CodeUnit} (hhigh : high.IsHigh) (hlow : low.IsLow) (s : Bytes) :
    readUnicode (high.digits ++ (low.bytes ++ s)) =
      .ok (String.utf8EncodeChar (Char.ofNat (0x10000 + 0x400 * (high.value - 0xD800) + (low.value - 0xDC00))), s) := by
  have hnot : ¬ isLowSurrogate high.value = true := fun h => by
    have := isLowSurrogate_iff.1 h
    have := hhigh.2
    omega
  have hvalue : pairValue high.value low.value =
      0x10000 + 0x400 * (high.value - 0xD800) + (low.value - 0xDC00) := by
    rw [pairValue]
    omega
  rw [readUnicode, readHex_digits, Reading.andThen_ok, if_neg hnot, if_pos (isHighSurrogate_iff.2 hhigh),
    CodeUnit.bytes]
  simp only [List.cons_append, readPairMark, if_true, Reading.andThen_ok, readHex_digits,
    isLowSurrogate_iff.2 hlow, encode, hvalue]

theorem readString_escape (esc : Bytes) {d : Bytes} (h : ∀ s, readEscape (esc ++ s) = .ok (d, s)) (s : Bytes) :
    readString (backslash :: (esc ++ s)) = (readString s).andThen fun ds rest => .ok (d ++ ds, rest) := by
  have hne : backslash ≠ quote := by decide
  rw [readString, if_neg hne, if_pos rfl]
  split
  · rename_i d' s' hread
    rw [h] at hread
    cases hread
    rfl
  · rename_i e hread
    rw [h] at hread
    cases hread

theorem skipString_escape (esc : Bytes) (h : ∀ s, skipEscape (esc ++ s) = .ok ((), s)) (s : Bytes) :
    skipString (backslash :: (esc ++ s)) = skipString s := by
  have hne : backslash ≠ quote := by decide
  rw [skipString, if_neg hne, if_pos rfl]
  split
  · rename_i s' hread
    rw [h] at hread
    cases hread
    rfl
  · rename_i e hread
    rw [h] at hread
    cases hread

theorem readString_letter (l : Letter) (s : Bytes) :
    readString (l.bytes ++ s) =
      (readString s).andThen fun ds rest => .ok (String.utf8EncodeChar l.char ++ ds, rest) := by
  cases l with
  | plain c hshown hquote hbackslash => exact readString_shown (isShown_encode hshown hquote hbackslash) s
  | short e => exact readString_escape [e.letter] (readEscape_short e) s
  | code u hhigh hlow =>
    exact readString_escape (letteru :: u.digits) (fun s => readUnicode_code hhigh hlow s) s
  | pair high low hhigh hlow =>
    exact readString_escape (letteru :: (high.digits ++ low.bytes)) (fun s => readUnicode_pair hhigh hlow s) s

theorem readString_letters (ls : List Letter) (s : Bytes) :
    readString (ls.flatMap Letter.bytes ++ quote :: s) = .ok (bytesOf (textOf ls), s) := by
  rw [textOf, bytesOf_ofList]
  induction ls with
  | nil => rw [List.flatMap_nil, List.nil_append, readString, if_pos rfl]; rfl
  | cons l ls ih =>
    rw [List.flatMap_cons, List.append_assoc, readString_letter, ih]
    rfl

theorem skipEscape_unit (u : CodeUnit) (s : Bytes) :
    skipEscape (letteru :: (u.digits ++ s)) = .ok ((), s) := by
  rw [skipEscape, if_pos rfl, readHex_digits]
  rfl

theorem skipString_unit (u : CodeUnit) (s : Bytes) : skipString (u.bytes ++ s) = skipString s :=
  skipString_escape (letteru :: u.digits) (skipEscape_unit u) s

theorem skipString_piece (p : Piece) (s : Bytes) : skipString (p.bytes ++ s) = skipString s := by
  cases p with
  | unit u => exact skipString_unit u s
  | letter l =>
    cases l with
    | plain c hshown hquote hbackslash => exact skipString_shown (isShown_encode hshown hquote hbackslash) s
    | short e => exact skipString_escape [e.letter] (fun s => by cases e <;> rfl) s
    | code u _ _ => exact skipString_unit u s
    | pair high low _ _ =>
      rw [Piece.bytes, Letter.bytes, List.append_assoc, skipString_unit, skipString_unit]

theorem skipString_pieces (ps : List Piece) (s : Bytes) :
    skipString (ps.flatMap Piece.bytes ++ quote :: s) = .ok ((), s) := by
  induction ps with
  | nil => rw [List.flatMap_nil, List.nil_append, skipString, if_pos rfl]
  | cons p ps ih => rw [List.flatMap_cons, List.append_assoc, skipString_piece, ih]

/-! ### Numbers -/

/-- Nothing that could be one more digit. -/
def NoDigit (s : Bytes) : Prop := ∀ b ∈ s.head?, isDigit b = false

/-- Nothing that could belong to a number in front of it. -/
def Ends (s : Bytes) : Prop := ∀ b ∈ s.head?, isDigit b = false ∧ b ≠ point ∧ b ≠ lettere ∧ b ≠ letterE

theorem Ends.noDigit {s : Bytes} (h : Ends s) : NoDigit s := fun b hb => (h b hb).1

theorem isDigit_digitByte (d : Fin 10) : isDigit (digitByte d) = true := by
  revert d
  decide

theorem digitValue_digitByte (d : Fin 10) : digitValue (digitByte d) = d.val := by
  revert d
  decide

theorem digitByte_eq_zero_iff (d : Fin 10) : digitByte d = zero ↔ d = 0 := by
  revert d
  decide

theorem takeWhile_digits (ds : List (Fin 10)) {s : Bytes} (h : NoDigit s) :
    (ds.map digitByte ++ s).takeWhile isDigit = ds.map digitByte := by
  have hnone : s.takeWhile isDigit = [] := by
    cases s with
    | nil => rfl
    | cons b s => exact List.takeWhile_cons_of_neg (by rw [h b rfl]; exact Bool.false_ne_true)
  rw [List.takeWhile_append_of_pos, hnone, List.append_nil]
  intro b hb
  obtain ⟨d, -, rfl⟩ := List.mem_map.1 hb
  exact isDigit_digitByte d

theorem dropWhile_digits (ds : List (Fin 10)) {s : Bytes} (h : NoDigit s) :
    (ds.map digitByte ++ s).dropWhile isDigit = s := by
  have hnone : s.dropWhile isDigit = s := by
    cases s with
    | nil => rfl
    | cons b s => exact List.dropWhile_cons_of_neg (by rw [h b rfl]; exact Bool.false_ne_true)
  rw [List.dropWhile_append_of_pos, hnone]
  intro b hb
  obtain ⟨d, -, rfl⟩ := List.mem_map.1 hb
  exact isDigit_digitByte d

theorem Digits.bytes_eq (ds : Digits) : ds.bytes = digitByte ds.first :: ds.rest.map digitByte := rfl

section parts

variable (atEnd : Cause)

theorem readWhole_digits {ds : Digits} (hzero : ds.first = 0 → ds.rest = []) {s : Bytes} (h : NoDigit s) :
    readWhole atEnd (ds.bytes ++ s) = .ok (ds.bytes, s) := by
  rw [ds.bytes_eq, List.cons_append, readWhole]
  by_cases hfirst : ds.first = 0
  · have hnext : ¬ (s.head?.map isDigit).getD false = true := by
      cases s with
      | nil => exact Bool.false_ne_true
      | cons b s =>
        have hb : isDigit b = false := h b rfl
        simp only [List.head?_cons, Option.map_some, Option.getD_some, hb]
        exact Bool.false_ne_true
    rw [if_pos ((digitByte_eq_zero_iff _).2 hfirst), hzero hfirst, List.map_nil, List.nil_append, if_neg hnext]
  · rw [if_neg (mt (digitByte_eq_zero_iff _).1 hfirst), if_pos (isDigit_digitByte _), takeWhile_digits _ h,
      dropWhile_digits _ h]

theorem readFraction_none {s : Bytes} (h : ∀ b ∈ s.head?, b ≠ point) : readFraction atEnd s = .ok (none, s) := by
  cases s with
  | nil => rfl
  | cons b s => simp only [readFraction, if_neg (h b rfl)]

theorem readFraction_some (ds : Digits) {s : Bytes} (h : NoDigit s) :
    readFraction atEnd (point :: (ds.bytes ++ s)) = .ok (some ds.bytes, s) := by
  have htake : (ds.bytes ++ s).takeWhile isDigit = ds.bytes := takeWhile_digits ds.toList h
  have hdrop : (ds.bytes ++ s).dropWhile isDigit = s := dropWhile_digits ds.toList h
  have hempty : ¬ ds.bytes.isEmpty = true := Bool.false_ne_true
  simp only [readFraction, htake, hdrop, if_neg hempty, if_true]

theorem readExponent_none {s : Bytes} (h : ∀ b ∈ s.head?, b ≠ lettere ∧ b ≠ letterE) :
    readExponent atEnd s = .ok (none, s) := by
  cases s with
  | nil => rfl
  | cons b s => rw [readExponent, if_neg (not_or.2 (h b rfl))]

/-- The power of ten as it is read. -/
def Power.exponent (p : Power) : Exponent := ⟨p.sign = some .minus, p.digits.bytes⟩

theorem Power.exists_bytes (p : Power) : ∃ b bs, p.bytes = b :: bs ∧ isDigit b = false ∧ b ≠ point := by
  obtain ⟨capital, sign, digits⟩ := p
  cases capital with
  | false => exact ⟨lettere, _, rfl, by decide, by decide⟩
  | true => exact ⟨letterE, _, rfl, by decide, by decide⟩

theorem digitByte_ne_sign (d : Fin 10) : digitByte d ≠ minus ∧ digitByte d ≠ plus := by
  revert d
  decide

theorem readSign_digits (sign : Option Sign) (ds : Digits) (s : Bytes) :
    readSign (sign.toList.map Sign.byte ++ (ds.bytes ++ s)) = (decide (sign = some .minus), ds.bytes ++ s) := by
  obtain ⟨hminus, hplus⟩ := digitByte_ne_sign ds.first
  rcases sign with _ | _ | _
  · rw [ds.bytes_eq]
    simp only [Option.toList_none, List.map_nil, List.nil_append, List.cons_append, readSign, if_neg hminus,
      if_neg hplus]
    rfl
  · rfl
  · rfl

theorem readExponent_some (p : Power) {s : Bytes} (h : NoDigit s) :
    readExponent atEnd (p.bytes ++ s) = .ok (some p.exponent, s) := by
  have hletter : (if p.capital then letterE else lettere) = lettere ∨
      (if p.capital then letterE else lettere) = letterE := by
    cases p.capital
    · exact .inl rfl
    · exact .inr rfl
  rw [Power.bytes, List.cons_append, List.append_assoc, readExponent, if_pos hletter, readSign_digits,
    p.digits.bytes_eq, List.cons_append]
  simp only [if_pos (isDigit_digitByte _), takeWhile_digits _ h, dropWhile_digits _ h]
  rfl

end parts

namespace Literal

/-- A number in its parts, as it is read. -/
def numeral (x : Literal) : Numeral := ⟨x.whole.bytes, x.fraction.map Digits.bytes, x.power.map Power.exponent⟩

theorem readNumeral_magnitude (x : Literal) (atEnd : Cause) {s : Bytes} (h : Ends s) :
    readNumeral atEnd (x.magnitude ++ s) = .ok (x.numeral, s) := by
  obtain ⟨negative, whole, fraction, power, hzero⟩ := x
  have hpower : readExponent atEnd (power.toList.flatMap Power.bytes ++ s) = .ok (power.map Power.exponent, s) := by
    cases power with
    | none => exact readExponent_none atEnd fun b hb => (h b hb).2.2
    | some p =>
      rw [Option.toList_some, List.flatMap_singleton]
      exact readExponent_some atEnd p h.noDigit
  have hafter : NoDigit (power.toList.flatMap Power.bytes ++ s) ∧
      ∀ b ∈ (power.toList.flatMap Power.bytes ++ s).head?, b ≠ point := by
    cases power with
    | none => exact ⟨h.noDigit, fun b hb => (h b hb).2.1⟩
    | some p =>
      obtain ⟨b, bs, hp, hb⟩ := p.exists_bytes
      rw [Option.toList_some, List.flatMap_singleton, hp]
      exact ⟨by rintro _ ⟨⟩; exact hb.1, by rintro _ ⟨⟩; exact hb.2⟩
  have hfraction : readFraction atEnd ((fraction.toList.flatMap fun ds => point :: ds.bytes) ++
      (power.toList.flatMap Power.bytes ++ s)) =
        .ok (fraction.map Digits.bytes, power.toList.flatMap Power.bytes ++ s) := by
    cases fraction with
    | none => exact readFraction_none atEnd hafter.2
    | some ds =>
      rw [Option.toList_some, List.flatMap_singleton, List.cons_append]
      exact readFraction_some atEnd ds hafter.1
  have hpoint : NoDigit ((fraction.toList.flatMap fun ds => point :: ds.bytes) ++
      (power.toList.flatMap Power.bytes ++ s)) := by
    cases fraction with
    | none => exact hafter.1
    | some ds => rintro b ⟨⟩; decide
  rw [magnitude, List.append_assoc, List.append_assoc, readNumeral, readWhole_digits atEnd hzero hpoint,
    Reading.andThen_ok, hfraction, Reading.andThen_ok, hpower, Reading.andThen_ok]
  rfl

end Literal

theorem withDigits_cons (n : Nat) (d : Fin 10) (ds : List (Fin 10)) :
    withDigits n (d :: ds) = withDigits (10 * n + d.val) ds := rfl

theorem le_withDigits (n : Nat) (ds : List (Fin 10)) : n ≤ withDigits n ds := by
  induction ds generalizing n with
  | nil => exact Nat.le_refl n
  | cons d ds ih =>
    have := ih (10 * n + d.val)
    rw [withDigits_cons]
    omega

theorem gather_of_le {limit n : Nat} {ds : List (Fin 10)} (h : withDigits n ds ≤ limit) :
    gather limit n (ds.map digitByte) = (withDigits n ds, []) := by
  induction ds generalizing n with
  | nil => rfl
  | cons d ds ih =>
    rw [withDigits_cons] at h
    have hd : 10 * n + d.val ≤ limit := Nat.le_trans (le_withDigits _ ds) h
    rw [List.map_cons, gather, digitValue_digitByte, if_pos hd, ih h, withDigits_cons]

theorem gather_of_lt {limit n : Nat} {ds : List (Fin 10)} (hn : n ≤ limit) (h : limit < withDigits n ds) :
    (gather limit n (ds.map digitByte)).2 ≠ [] := by
  induction ds generalizing n with
  | nil => exact absurd h (Nat.not_lt.2 hn)
  | cons d ds ih =>
    rw [List.map_cons, gather, digitValue_digitByte]
    split
    · rename_i hd
      exact ih hd h
    · exact List.cons_ne_nil _ _

/-- Only whole numbers without a minus are words, and only if no digit of theirs is left over. -/
theorem Numeral.number_eq_natural_iff (x : Numeral) (negative : Bool) (rest : Bytes) (n : UInt64) :
    x.number negative rest = .ok (.natural n) ↔
      negative = false ∧ x.fraction = none ∧ x.exponent = none ∧
        ∃ m, gather maxWord 0 x.whole = (m, []) ∧ n = UInt64.ofNat m := by
  constructor
  · intro h
    rcases hgather : gather maxWord 0 x.whole with ⟨m, beyond⟩
    simp only [number, hgather] at h
    split at h
    · rename_i hfraction hexponent
      cases negative with
      | false =>
        cases h
        exact ⟨rfl, hfraction, hexponent, m, rfl, rfl⟩
      | true =>
        simp only [Bool.not_true, Bool.false_eq_true, if_false] at h
        split at h <;> cases h
    · split at h <;> cases h
    · split at h
      · split at h <;> cases h
      · split at h <;> cases h
  · rintro ⟨rfl, hfraction, hexponent, m, hgather, rfl⟩
    simp only [number, hgather, hfraction, hexponent]
    rfl

namespace Literal

/-- The word that is written, if it is written as one: without a sign, a fraction and a power of ten. -/
def word? (x : Literal) : Option UInt64 :=
  if x.IsPlain ∧ x.whole.value < 2 ^ 64 then some (UInt64.ofNat x.whole.value) else none

theorem number_eq_natural_iff (x : Literal) (rest : Bytes) (n : UInt64) :
    x.numeral.number x.negative rest = .ok (.natural n) ↔ x.word? = some n := by
  have hwhole : (∃ m, gather maxWord 0 x.whole.bytes = (m, []) ∧ n = UInt64.ofNat m) ↔
      x.whole.value < 2 ^ 64 ∧ n = UInt64.ofNat x.whole.value := by
    constructor
    · rintro ⟨m, hm, hn⟩
      rcases Nat.lt_or_ge maxWord x.whole.value with hlt | hle
      · exact absurd (congrArg Prod.snd hm) (gather_of_lt (Nat.zero_le _) hlt)
      · obtain rfl : x.whole.value = m := congrArg Prod.fst ((gather_of_le hle).symm.trans hm)
        exact ⟨Nat.lt_succ_of_le hle, hn⟩
    · rintro ⟨hlt, hn⟩
      exact ⟨x.whole.value, gather_of_le (Nat.le_of_lt_succ hlt), hn⟩
  have hparts : (x.numeral.fraction = none ↔ x.fraction = none) ∧ (x.numeral.exponent = none ↔ x.power = none) :=
    ⟨Option.map_eq_none_iff, Option.map_eq_none_iff⟩
  rw [Numeral.number_eq_natural_iff, hparts.1, hparts.2, numeral, hwhole, word?]
  split
  · rename_i h
    rw [Option.some_inj]
    exact ⟨fun ⟨_, _, _, _, hn⟩ => hn.symm, fun hn => ⟨h.1.1, h.1.2.1, h.1.2.2, h.2, hn.symm⟩⟩
  · rename_i h
    exact ⟨fun ⟨hs, hf, hp, hv, _⟩ => absurd ⟨⟨hs, hf, hp⟩, hv⟩ h, fun hn => nomatch hn⟩

end Literal

/-! ### Words in digits -/

theorem withDigits_concat (n : Nat) (ds : List (Fin 10)) (d : Fin 10) :
    withDigits n (ds ++ [d]) = 10 * withDigits n ds + d.val := by
  rw [withDigits, withDigits, List.foldl_append]
  rfl

theorem encode_digitChar (d : Fin 10) : String.utf8EncodeChar (Nat.digitChar d.val) = [digitByte d] := by
  revert d
  decide

theorem Digits.value_concat (ds : Digits) (d : Fin 10) :
    (Digits.mk ds.first (ds.rest ++ [d])).value = 10 * ds.value + d.val := withDigits_concat 0 ds.toList d

theorem Digits.bytes_concat (ds : Digits) (d : Fin 10) :
    (Digits.mk ds.first (ds.rest ++ [d])).bytes = ds.bytes ++ [digitByte d] := by
  rw [Digits.bytes_eq, Digits.bytes_eq, List.map_append, List.cons_append]
  rfl

/-- Every number is written in digits, and only zero with a zero in front. -/
theorem exists_digits (n : Nat) :
    ∃ ds : Digits, ds.value = n ∧ ds.bytes = bytesOf (toString n) ∧
      (ds.first = 0 → n = 0) ∧ (n = 0 → ds.rest = []) := by
  simp only [Nat.toString_eq_ofList_toDigits, bytesOf_ofList]
  induction n using Nat.strongRecOn with
  | ind n ih =>
    rcases Nat.lt_or_ge n 10 with hlt | hge
    · refine ⟨⟨⟨n, hlt⟩, []⟩, ?_, ?_, fun h => congrArg Fin.val h, fun _ => rfl⟩
      · exact Nat.zero_add n
      · rw [Nat.toDigits_of_lt_base hlt, List.flatMap_singleton, encode_digitChar ⟨n, hlt⟩]
        rfl
    · obtain ⟨ds, hvalue, hbytes, hfirst, -⟩ := ih (n / 10) (by omega)
      have hlast : n % 10 < 10 := Nat.mod_lt n (by omega)
      refine ⟨⟨ds.first, ds.rest ++ [⟨n % 10, hlast⟩]⟩, ?_, ?_, fun h => ?_, fun h => ?_⟩
      · rw [Digits.value_concat, hvalue]
        exact Nat.div_add_mod n 10
      · rw [Digits.bytes_concat, hbytes, Nat.toDigits_of_base_le (by omega) hge, List.flatMap_append,
          List.flatMap_singleton, encode_digitChar ⟨n % 10, hlast⟩]
      · have := hfirst h
        omega
      · omega

theorem exists_literal (n : UInt64) : ∃ x : Literal, x.word? = some n ∧ x.bytes = bytesOf (toString n.toNat) := by
  obtain ⟨ds, hvalue, hbytes, hfirst, hrest⟩ := exists_digits n.toNat
  refine ⟨⟨false, ds, none, none, fun h => hrest (hfirst h)⟩, ?_, ?_⟩
  · have hplain : ds.value < 2 ^ 64 := by rw [hvalue]; exact n.toNat_lt
    rw [Literal.word?, if_pos ⟨⟨rfl, rfl, rfl⟩, hplain⟩, hvalue, UInt64.ofNat_toNat]
  · rw [← hbytes]
    exact List.append_nil _

end LiveTracks.Json
