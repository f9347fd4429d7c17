import LiveTracks.Proofs.Ranking
import Mathlib.Data.List.DropRight

/-!
# The summary read back

What a census tells in its table can be read off the table again, line by line. The readers know nothing of how the
table was written: a text has its lines between newlines, numbers are digits that stand together (`numbersIn`), and
the count of a camera stands behind the last colon of its line (`readCount?`). A name may hold colons, digits and
blanks, and may be too long for its column; only a newline in it would tear its line apart
(`Census.summary_read_back`).
-/

namespace LiveTracks

/-! ### Readers -/

/-- The numbers in a line, where digits that stand together are one number. -/
def numbersIn (line : List Char) : List Nat :=
  ((line.splitOnP fun ch => !ch.isDigit).filter (· ≠ [])).map (Nat.ofDigitChars 10 · 0)

/-- What stands behind the last colon of a line, without blanks before it. -/
def lastField (line : List Char) : List Char := (line.rtakeWhile (· ≠ ':')).dropWhile (· = ' ')

def readCount? (line : List Char) : Option Nat :=
  if ':' ∈ line ∧ (lastField line).takeWhile (·.isDigit) ≠ [] ∧
      (lastField line).dropWhile (·.isDigit) = " tracks".toList then
    some (Nat.ofDigitChars 10 ((lastField line).takeWhile (·.isDigit)) 0)
  else none

theorem isDigit_of_mem_toString {n : Nat} {ch : Char} (h : ch ∈ (toString n).toList) : ch.isDigit = true := by
  rw [Nat.toString_eq_repr, Nat.toList_repr] at h
  exact Nat.isDigit_of_mem_toDigits (by decide) (by decide) h

theorem toString_ne_nil (n : Nat) : (toString n).toList ≠ [] := by
  rw [Nat.toString_eq_repr, Nat.toList_repr]
  exact Nat.toDigits_ne_nil

theorem ofDigitChars_toString (n : Nat) : Nat.ofDigitChars 10 (toString n).toList 0 = n := by
  rw [Nat.toString_eq_repr, Nat.toList_repr, Nat.ofDigitChars_ten_toDigits]

/-- What is no digit ends a number. -/
theorem numbersIn_append_cons {digits : List Char} (hdigits : ∀ x ∈ digits, x.isDigit = true) {ch : Char}
    (hch : ch.isDigit = false) (l : List Char) :
    numbersIn (digits ++ ch :: l) = (if digits = [] then [] else [Nat.ofDigitChars 10 digits 0]) ++ numbersIn l := by
  have hsplit : (digits ++ ch :: l).splitOnP (fun ch => !ch.isDigit) =
      digits :: l.splitOnP fun ch => !ch.isDigit :=
    List.splitOnP_append_cons_of_forall_mem (fun x hx => by rw [hdigits x hx]; rfl) ch (by rw [hch]; rfl) l
  rw [numbersIn, hsplit, numbersIn]
  by_cases hne : digits = []
  · rw [if_pos hne, hne]
    rfl
  · rw [if_neg hne, List.filter_cons_of_pos (by simpa using hne)]
    rfl

theorem numbersIn_of_text (a : List Char) (h : a.all (!·.isDigit) = true) (l : List Char) :
    numbersIn (a ++ l) = numbersIn l := by
  induction a with
  | nil => rfl
  | cons ch a ih =>
    rw [List.all_cons, Bool.and_eq_true, Bool.not_eq_true'] at h
    rw [← ih h.2]
    exact numbersIn_append_cons (List.forall_mem_nil _) h.1 (a ++ l)

theorem numbersIn_of_number (n : Nat) {ch : Char} (hch : ch.isDigit = false) (l : List Char) :
    numbersIn ((toString n).toList ++ ch :: l) = n :: numbersIn l := by
  rw [numbersIn_append_cons (fun x => isDigit_of_mem_toString) hch, if_neg (toString_ne_nil n), ofDigitChars_toString]
  rfl

theorem rtakeWhile_behind {α : Type} {p : α → Bool} {a : α} (ha : p a = false) {l : List α} (hl : ∀ x ∈ l, p x = true)
    (before : List α) : (before ++ a :: l).rtakeWhile p = l := by
  induction l using List.reverseRecOn with
  | nil => exact List.rtakeWhile_concat_neg p before a (by simp [ha])
  | append_singleton l x ih =>
    rw [← List.cons_append, ← List.append_assoc, List.rtakeWhile_concat_pos p _ x (hl x (by simp)),
      ih fun y hy => hl y (by simp [hy])]

theorem lastField_behind (before : List Char) (blanks n : Nat) :
    lastField (before ++ ':' :: (List.replicate blanks ' ' ++ ((toString n).toList ++ " tracks".toList))) =
      (toString n).toList ++ " tracks".toList := by
  have hcolon : ∀ ch ∈ List.replicate blanks ' ' ++ ((toString n).toList ++ " tracks".toList),
      decide (ch ≠ ':') = true := by
    intro ch hch
    rw [List.mem_append, List.mem_append, List.mem_replicate] at hch
    rcases hch with ⟨-, rfl⟩ | hch | hch
    · rfl
    · rw [decide_eq_true_eq]
      rintro rfl
      cases isDigit_of_mem_toString hch
    · have hword : " tracks".toList.all (· ≠ ':') = true := by decide
      exact List.all_eq_true.1 hword ch hch
  have hblanks : ∀ ch ∈ List.replicate blanks ' ', decide (ch = ' ') = true := fun ch hch =>
    decide_eq_true (List.eq_of_mem_replicate hch)
  rw [lastField, rtakeWhile_behind (by simp) hcolon, List.dropWhile_append_of_pos hblanks]
  cases hn : (toString n).toList with
  | nil => exact absurd hn (toString_ne_nil n)
  | cons ch digits =>
    have hdigit : ch.isDigit = true := isDigit_of_mem_toString (n := n) (by rw [hn]; exact List.mem_cons_self)
    refine List.dropWhile_cons_of_neg fun hblank => ?_
    rw [of_decide_eq_true hblank] at hdigit
    cases hdigit

/-- Whatever stands before the last colon, the count behind it is read. -/
theorem readCount?_behind (before : List Char) (blanks n : Nat) :
    readCount? (before ++ ':' :: (List.replicate blanks ' ' ++ ((toString n).toList ++ " tracks".toList))) = some n := by
  have hdigits : ((toString n).toList ++ " tracks".toList).takeWhile (·.isDigit) = (toString n).toList := by
    rw [List.takeWhile_append_of_pos fun ch => isDigit_of_mem_toString]
    exact List.append_nil _
  have hword : ((toString n).toList ++ " tracks".toList).dropWhile (·.isDigit) = " tracks".toList := by
    rw [List.dropWhile_append_of_pos fun ch => isDigit_of_mem_toString]
    rfl
  rw [readCount?, lastField_behind, hdigits, hword, ofDigitChars_toString]
  exact if_pos ⟨by simp, toString_ne_nil n, rfl⟩

/-! ### Lines of the table -/

namespace Census

theorem toList_padRight (width : Nat) (s : String) :
    (padRight width s).toList = s.toList ++ List.replicate (width - s.length) ' ' := by
  rw [padRight, String.toList_append, String.toList_ofList]

theorem toList_padLeft (width : Nat) (s : String) :
    (padLeft width s).toList = List.replicate (width - s.length) ' ' ++ s.toList := by
  rw [padLeft, String.toList_append, String.toList_ofList]

theorem toList_row (p : String × Nat) : (row p).toList =
    ("  ".toList ++ p.1.toList ++ List.replicate (16 - p.1.length) ' ') ++
      ':' :: (List.replicate (1 + (5 - (toString p.2).length)) ' ' ++ ((toString p.2).toList ++ " tracks".toList)) := by
  rw [row, List.replicate_add]
  simp [toList_padRight, toList_padLeft]

theorem prefix_row (p : String × Nat) : "  ".toList ++ p.1.toList <+: (row p).toList := by
  rw [toList_row, List.append_assoc]
  exact List.prefix_append _ _

theorem readCount?_row (p : String × Nat) : readCount? (row p).toList = some p.2 := by
  rw [toList_row, readCount?_behind]

example : readCount? (row ("gate: 7 tracks", 12)).toList = some 12 := by decide

theorem length_row {p : String × Nat} (hid : p.1.length ≤ 16) (hcount : p.2 < 100000) : (row p).toList.length = 32 := by
  have hdigits : (toString p.2).length ≤ 5 := by
    rw [← String.length_toList, Nat.toString_eq_repr, Nat.toList_repr, Nat.length_toDigits_le_iff (by decide) (by decide)]
    exact hcount
  rw [toList_row]
  simp only [List.length_append, List.length_cons, List.length_replicate, String.length_toList]
  have hblanks : "  ".length = 2 := rfl
  have hword : " tracks".length = 7 := rfl
  omega

theorem numbersIn_heading (c : Census) : numbersIn c.heading.toList = [c.size, c.total] := by
  have htext : c.heading.toList = "Track registry (".toList ++ ((toString c.size).toList ++
      ' ' :: ("cameras, ".toList ++ ((toString c.total).toList ++ ' ' :: "tracks):".toList))) := by
    unfold heading
    simp
  have hend : numbersIn "tracks):".toList = [] := by decide
  rw [htext, numbersIn_of_text _ (by decide), numbersIn_of_number _ rfl, numbersIn_of_text _ (by decide),
    numbersIn_of_number _ rfl, hend]

theorem newline_not_mem_row {p : String × Nat} (hid : '\n' ∉ p.1.toList) : '\n' ∉ (row p).toList := by
  intro h
  rw [toList_row] at h
  simp only [List.mem_append, List.mem_cons, List.mem_replicate] at h
  rcases h with ((h | h) | ⟨-, h⟩) | h | ⟨-, h⟩ | h | h
  · revert h
    decide
  · exact hid h
  · cases h
  · cases h
  · cases h
  · cases isDigit_of_mem_toString h
  · revert h
    decide

theorem newline_not_mem_heading (c : Census) : '\n' ∉ c.heading.toList := by
  unfold heading
  simp only [String.toList_append, List.mem_append, not_or]
  refine ⟨⟨⟨⟨by decide, ?_⟩, by decide⟩, ?_⟩, by decide⟩ <;> exact fun h => nomatch isDigit_of_mem_toString h

/-! ### The whole table -/

/-- What the lines of a text tell of a census. -/
structure ReadsBack (c : Census) (lines : List (List Char)) : Prop where
  size : lines.length = c.size + 1
  heading : ∃ head, lines[0]? = some head ∧ numbersIn head = [c.size, c.total]
  row : ∀ i p, c.cameras[i]? = some p →
    ∃ line, lines[i + 1]? = some line ∧ "  ".toList ++ p.1.toList <+: line ∧ readCount? line = some p.2
  aligned : (∀ p ∈ c.pairs, p.1.length ≤ 16 ∧ p.2 < 100000) → ∀ i line, lines[i + 1]? = some line → line.length = 32

theorem readsBack_table (c : Census) : c.ReadsBack ((c.heading :: c.cameras.map Census.row).map String.toList) where
  size := by simp [c.perm_cameras.length_eq, Census.size]
  heading := ⟨_, rfl, c.numbersIn_heading⟩
  row i p hi := ⟨_, by simp [hi], prefix_row p, readCount?_row p⟩
  aligned h i line hi := by
    obtain ⟨p, hp, rfl⟩ : ∃ p, c.cameras[i]? = some p ∧ (Census.row p).toList = line := by simpa using hi
    obtain ⟨hid, hcount⟩ := h p (mem_cameras_iff.1 (List.mem_of_getElem? hp))
    exact length_row hid hcount

theorem summary?_eq_none_iff (c : Census) : c.summary? = none ↔ c.pairs = [] := by
  unfold summary?
  split
  · rename_i h
    simpa using h
  · rename_i h
    simpa using h

/-- The printed table is faithful: what it was printed from can be read off its lines. -/
theorem summary_read_back (c : Census) :
    (c.summary? = none ↔ c.pairs = []) ∧
    ∀ text, c.summary? = some text → (∀ p ∈ c.pairs, '\n' ∉ p.1.toList) → c.ReadsBack (text.toList.splitOn '\n') := by
  refine ⟨c.summary?_eq_none_iff, fun text htext hids => ?_⟩
  have hlines : ∀ line ∈ (c.heading :: c.cameras.map Census.row).map String.toList, '\n' ∉ line := by
    intro line hline
    obtain ⟨written, hwritten, rfl⟩ := List.mem_map.1 hline
    rcases List.mem_cons.1 hwritten with rfl | hwritten
    · exact c.newline_not_mem_heading
    · obtain ⟨p, hp, rfl⟩ := List.mem_map.1 hwritten
      exact newline_not_mem_row (hids p (mem_cameras_iff.1 hp))
  have hsplit : text.toList.splitOn '\n' = (c.heading :: c.cameras.map Census.row).map String.toList := by
    unfold summary? at htext
    split at htext
    · cases htext
    · cases htext
      rw [String.toList_intercalate]
      exact List.splitOn_intercalate '\n' hlines (by simp)
  rw [hsplit]
  exact c.readsBack_table

/-- A name that looks like the end of a row, and one that is longer in bytes than in characters. -/
def yard : Census := ⟨[("gate: 7 tracks", 12), ("Tür 2", 0)], by decide⟩

theorem summary_read_back_yard :
    ∃ text, yard.summary? = some text ∧ yard.ReadsBack (text.toList.splitOn '\n') ∧
      (text.toList.splitOn '\n').length = 3 ∧
      ∃ line ∈ text.toList.splitOn '\n', "  gate: 7 tracks".toList <+: line ∧ readCount? line = some 12 ∧
        line.length = 32 := by
  obtain ⟨hnone, hreads⟩ := summary_read_back yard
  have hsome : yard.summary? ≠ none := fun h => nomatch hnone.1 h
  obtain ⟨text, htext⟩ := Option.ne_none_iff_exists'.1 hsome
  have hback := hreads text htext (by decide)
  have hgate : ("gate: 7 tracks", 12) ∈ yard.cameras := mem_cameras_iff.2 List.mem_cons_self
  obtain ⟨i, hi⟩ := List.getElem?_of_mem hgate
  obtain ⟨line, hline, hname, hcount⟩ := hback.row i _ hi
  exact ⟨text, htext, hback, hback.size, line, List.mem_of_getElem? hline, hname, hcount,
    hback.aligned (by decide) i line hline⟩

end Census

end LiveTracks
