import LiveTracks.Json.Skip
import LiveTracks.Proofs.JsonScalars

/-!
# Passing over a value

What `skipValue` makes of a written value of any depth. The lists and objects that are open in front of the value stay
as they are: behind it, the reader goes on as `resume` does with them (`skipFrames_value`). So a value that nobody asks
for is passed over, and nothing else (`skipValue_written`).
-/

namespace LiveTracks.Json

/-- The tokens that can stand behind a value. -/
def Token.Closes : Token → Prop
  | .comma => True
  | .closeList => True
  | .closeObject => True
  | _ => False

/-- Tokens in front of which a value can stand. -/
def Behind (ts : List Token) : Prop := ∀ t ∈ ts.head?, t.Closes

theorem behind_furtherElements (vs : List Value) (ts : List Token) : Behind (furtherElements vs ++ ts) := by
  cases vs with
  | nil =>
    rw [furtherElements]
    rintro _ ⟨⟩
    exact True.intro
  | cons v vs =>
    rw [furtherElements]
    rintro _ ⟨⟩
    exact True.intro

theorem behind_furtherMembers (ms : List (List Piece × Value)) (ts : List Token) :
    Behind (furtherMembers ms ++ ts) := by
  cases ms with
  | nil =>
    rw [furtherMembers]
    rintro _ ⟨⟩
    exact True.intro
  | cons m ms =>
    rw [furtherMembers]
    rintro _ ⟨⟩
    exact True.intro

/-! ### What stands behind a number -/

theorem ends_blank (b : Blank) (s : Bytes) : Ends (b.byte :: s) := by
  rintro _ ⟨⟩
  cases b <;> decide

theorem Token.Closes.ends {t : Token} (h : t.Closes) (s : Bytes) : Ends (t.bytes ++ s) := by
  cases t with
  | comma | closeList | closeObject =>
    rintro _ ⟨⟩
    decide
  | _ => exact h.elim

variable {t : Token} {ts : List Token} {s : Bytes}

theorem Written.ends (h : Written ts s) (hts : Behind ts) : Ends s := by
  cases h with
  | blanks bs =>
    cases bs with
    | nil => rintro _ ⟨⟩
    | cons b bs => exact ends_blank b _
  | token bs t h =>
    cases bs with
    | nil => exact (hts t rfl).ends _
    | cons b bs => exact ends_blank b _

theorem Written.trimmed (h : Written ts s) : Written ts (skipBlanks s) := by
  cases ts with
  | nil =>
    rw [h.skipBlanks_eq_nil]
    exact .blanks []
  | cons t ts =>
    obtain ⟨s', hs, h⟩ := h.skipBlanks_eq
    rw [hs]
    exact .token [] t h

/-! ### Scalars -/

theorem readWord_self (word s : Bytes) : readWord word (word ++ s) = .ok ((), s) := by
  induction word with
  | nil => cases s <;> rfl
  | cons b word ih => rw [List.cons_append, readWord, if_pos rfl, ih]

theorem skipNumber_magnitude (x : Literal) (h : Ends s) : skipNumber (x.magnitude ++ s) = .ok ((), s) := by
  rw [skipNumber, x.readNumeral_magnitude _ h, Reading.andThen_ok]

/-- A digit begins nothing but a number. -/
theorem skipScalar_digit (d : Fin 10) (s : Bytes) :
    skipScalar (digitByte d :: s) = skipNumber (digitByte d :: s) := by
  have hletters : digitByte d ≠ lettern ∧ digitByte d ≠ lettert ∧ digitByte d ≠ letterf ∧ digitByte d ≠ minus := by
    revert d
    decide
  obtain ⟨hnull, htrue, hfalse, hminus⟩ := hletters
  rw [skipScalar, if_neg hnull, if_neg htrue, if_neg hfalse, if_neg hminus, if_pos (isDigit_digitByte d)]

theorem skipScalar_number (x : Literal) (h : Ends s) : skipScalar (x.bytes ++ s) = .ok ((), s) := by
  rw [Literal.bytes]
  split
  · exact skipNumber_magnitude x h
  · exact (skipScalar_digit x.whole.first _).trans (skipNumber_magnitude x h)

theorem skipScalar_string (ps : List Piece) (s : Bytes) :
    skipScalar ((Token.string ps).bytes ++ s) = .ok ((), s) := by
  refine Eq.trans ?_ (skipString_pieces ps s)
  rw [Token.bytes, List.cons_append, List.append_assoc]
  rfl

/-- Neither a list nor an object is opened here. -/
def NoOpening (s : Bytes) : Prop := ∀ b ∈ s.head?, b ≠ openList ∧ b ≠ openObject

theorem skipStep_scalar {r : Bytes} (frames : List Frame) (h : skipBlanks s = t.bytes ++ r)
    (hopening : NoOpening (t.bytes ++ r)) (hscalar : skipScalar (t.bytes ++ r) = .ok ((), r)) :
    skipStep frames s = skipBetween frames r := by
  obtain ⟨b, bs, ht, -⟩ := t.exists_bytes
  rw [ht, List.cons_append] at h hopening hscalar
  obtain ⟨hlist, hobject⟩ := hopening b rfl
  simp only [skipStep, h, if_neg hlist, if_neg hobject, hscalar, Reading.andThen_ok]

/-! ### Frames -/

def proceed (frames : List Frame) (s : Bytes) : Reading Unit :=
  if frames = [] then .ok ((), s) else skipFrames frames s

/-- Goes on behind a value that stands inside these frames. -/
def resume (frames : List Frame) (s : Bytes) : Reading Unit := (skipBetween frames s).andThen proceed

theorem skipFrames_eq (frames : List Frame) (s : Bytes) :
    skipFrames frames s = (skipStep frames s).andThen proceed := by
  rw [skipFrames]
  split
  · rename_i e hstep
    rw [hstep]
    rfl
  · rename_i rest hstep
    rw [hstep]
    rfl
  · rename_i f frames' rest hstep
    simp only [hstep, Reading.andThen_ok]
    rfl

theorem resume_nil (s : Bytes) : resume [] s = .ok ((), s) := rfl

section frames

variable {f : Frame} {frames : List Frame} {b : UInt8} {r : Bytes}

theorem resume_closer (h : skipBlanks s = f.closer :: r) : resume (f :: frames) s = resume frames r := by
  have hne : f.closer ≠ comma := by cases f <;> decide
  simp only [resume, skipBetween, h, if_neg hne, if_true]

theorem resume_comma (h : skipBlanks s = comma :: r) :
    resume (f :: frames) s = (f.skipLead r).andThen fun _ r' => skipFrames (f :: frames) r' := by
  simp only [resume, skipBetween, h, if_true]
  cases f.skipLead r <;> rfl

theorem skipOpened_closer (h : skipBlanks s = f.closer :: r) :
    (skipOpened f frames s).andThen proceed = resume frames r := by
  simp only [skipOpened, h, if_true, resume]

theorem skipOpened_lead (h : skipBlanks s = b :: r) (hb : b ≠ f.closer) :
    (skipOpened f frames s).andThen proceed =
      (f.skipLead (skipBlanks s)).andThen fun _ r' => skipFrames (f :: frames) r' := by
  simp only [skipOpened, h, if_neg hb]
  cases f.skipLead (b :: r) <;> rfl

theorem skipFrames_list (h : skipBlanks s = openList :: r) :
    skipFrames frames s = (skipOpened .list frames r).andThen proceed := by
  simp only [skipFrames_eq, skipStep, h, if_true]

theorem skipFrames_object (h : skipBlanks s = openObject :: r) :
    skipFrames frames s = (skipOpened .object frames r).andThen proceed := by
  have hne : openObject ≠ openList := by decide
  simp only [skipFrames_eq, skipStep, h, if_neg hne, if_true]

theorem skipKey_written {key : List Piece} (h : Written (.string key :: .colon :: ts) s) :
    ∃ r, Written ts r ∧ skipKey s = .ok ((), r) := by
  obtain ⟨r1, hkey, h1⟩ := h.skipBlanks_eq
  obtain ⟨r2, hcolon, h2⟩ := h1.skipBlanks_eq
  refine ⟨r2, h2, ?_⟩
  rw [Token.bytes, List.cons_append, List.append_assoc] at hkey
  have hskip : skipString (key.flatMap Piece.bytes ++ ([quote] ++ r1)) = .ok ((), r1) := skipString_pieces key r1
  rw [Token.bytes, List.singleton_append] at hcolon
  simp only [skipKey, hkey, hskip, Reading.andThen_ok, hcolon, if_true]

end frames

/-! ### Values -/

theorem Value.exists_tokens (v : Value) : ∃ t ts bs, v.tokens = t :: ts ∧ t.bytes = v.lead :: bs := by
  cases v with
  | null | string => exact ⟨_, _, _, by rw [Value.tokens], rfl⟩
  | boolean b =>
    refine ⟨.boolean b, [], if b then rue else alse, by rw [Value.tokens], ?_⟩
    cases b <;> rfl
  | number x =>
    obtain ⟨bs, hx⟩ := x.exists_bytes
    exact ⟨.number x, [], bs, by rw [Value.tokens], hx⟩
  | list vs => cases vs <;> exact ⟨_, _, _, by rw [Value.tokens], rfl⟩
  | object ms =>
    rcases ms with _ | ⟨⟨key, v⟩, ms⟩
    · exact ⟨_, _, _, by rw [Value.tokens], rfl⟩
    · exact ⟨_, _, _, by rw [Value.tokens], rfl⟩

theorem Value.lead_ne_closeList (v : Value) : v.lead ≠ closeList := by
  cases v with
  | null => decide
  | boolean b => cases b <;> decide
  | number x => exact x.lead_of (· ≠ closeList) (by decide) (by decide)
  | string ps => exact (by decide : quote ≠ closeList)
  | list vs => exact (by decide : openList ≠ closeList)
  | object ms => exact (by decide : openObject ≠ closeList)

theorem Written.skipBlanks_value {v : Value} (h : Written (v.tokens ++ ts) s) : ∃ r, skipBlanks s = v.lead :: r := by
  obtain ⟨t, ts', bs, hv, ht⟩ := v.exists_tokens
  rw [hv, List.cons_append] at h
  obtain ⟨r, hs, -⟩ := h.skipBlanks_eq
  exact ⟨bs ++ r, by rw [hs, ht, List.cons_append]⟩

/-- A scalar is passed over in one step. -/
theorem skipFrames_scalar (frames : List Frame) (h : Written (t :: ts) s)
    (hopening : ∀ r, NoOpening (t.bytes ++ r)) (hscalar : ∀ r, Written ts r → skipScalar (t.bytes ++ r) = .ok ((), r)) :
    ∃ r, Written ts r ∧ skipFrames frames s = resume frames r := by
  obtain ⟨r, hs, h⟩ := h.skipBlanks_eq
  refine ⟨r, h, ?_⟩
  rw [skipFrames_eq, skipStep_scalar frames hs (hopening r) (hscalar r h), resume]

-- The frames in front of a value are arbitrary, since they are others for the values inside of it.
mutual

theorem skipFrames_value (v : Value) (frames : List Frame) {ts : List Token} {s : Bytes}
    (h : Written (v.tokens ++ ts) s) (hts : Behind ts) :
    ∃ r, Written ts r ∧ skipFrames frames s = resume frames r := by
  match v with
  | .null =>
    rw [Value.tokens] at h
    exact skipFrames_scalar frames h (fun r => by rintro _ ⟨⟩; decide) fun r _ => readWord_self ull r
  | .boolean b =>
    rw [Value.tokens] at h
    cases b with
    | false => exact skipFrames_scalar frames h (fun r => by rintro _ ⟨⟩; decide) fun r _ => readWord_self alse r
    | true => exact skipFrames_scalar frames h (fun r => by rintro _ ⟨⟩; decide) fun r _ => readWord_self rue r
  | .number x =>
    rw [Value.tokens] at h
    refine skipFrames_scalar frames h (fun r => ?_) fun r hr => skipScalar_number x (hr.ends hts)
    obtain ⟨bs, hx⟩ := x.exists_bytes
    rw [Token.bytes, hx]
    rintro _ ⟨⟩
    exact x.lead_of (fun b => b ≠ openList ∧ b ≠ openObject) (by decide) (by decide)
  | .string ps =>
    rw [Value.tokens] at h
    exact skipFrames_scalar frames h (fun r => by rintro _ ⟨⟩; decide) fun r _ => skipScalar_string ps r
  | .list [] =>
    rw [Value.tokens] at h
    obtain ⟨r1, hopen, h1⟩ := h.skipBlanks_eq
    obtain ⟨r2, hclose, h2⟩ := h1.skipBlanks_eq
    exact ⟨r2, h2, (skipFrames_list hopen).trans (skipOpened_closer hclose)⟩
  | .list (v :: vs) =>
    rw [Value.tokens, List.cons_append, List.append_assoc] at h
    obtain ⟨r1, hopen, h1⟩ := h.skipBlanks_eq
    obtain ⟨r', hlead⟩ := h1.skipBlanks_value
    obtain ⟨r2, h2, hv⟩ := skipFrames_value v (.list :: frames) h1.trimmed (behind_furtherElements vs ts)
    obtain ⟨r3, h3, hvs⟩ := resume_elements vs frames h2 hts
    refine ⟨r3, h3, ?_⟩
    calc skipFrames frames s
        = (skipOpened .list frames r1).andThen proceed := skipFrames_list hopen
      _ = skipFrames (.list :: frames) (skipBlanks r1) := skipOpened_lead hlead v.lead_ne_closeList
      _ = resume (.list :: frames) r2 := hv
      _ = resume frames r3 := hvs
  | .object [] =>
    rw [Value.tokens] at h
    obtain ⟨r1, hopen, h1⟩ := h.skipBlanks_eq
    obtain ⟨r2, hclose, h2⟩ := h1.skipBlanks_eq
    exact ⟨r2, h2, (skipFrames_object hopen).trans (skipOpened_closer hclose)⟩
  | .object ((key, v) :: ms) =>
    simp only [Value.tokens, List.cons_append, List.append_assoc] at h
    obtain ⟨r1, hopen, h1⟩ := h.skipBlanks_eq
    obtain ⟨r', hquote, -⟩ := h1.skipBlanks_eq
    obtain ⟨r2, h2, hkey⟩ := skipKey_written h1.trimmed
    obtain ⟨r3, h3, hv⟩ := skipFrames_value v (.object :: frames) h2 (behind_furtherMembers ms ts)
    obtain ⟨r4, h4, hms⟩ := resume_members ms frames h3 hts
    have hne : quote ≠ Frame.closer .object := by decide
    refine ⟨r4, h4, ?_⟩
    calc skipFrames frames s
        = (skipOpened .object frames r1).andThen proceed := skipFrames_object hopen
      _ = (skipKey (skipBlanks r1)).andThen fun _ r => skipFrames (.object :: frames) r := skipOpened_lead hquote hne
      _ = skipFrames (.object :: frames) r2 := by rw [hkey, Reading.andThen_ok]
      _ = resume (.object :: frames) r3 := hv
      _ = resume frames r4 := hms

theorem resume_elements (vs : List Value) (frames : List Frame) {ts : List Token} {s : Bytes}
    (h : Written (furtherElements vs ++ ts) s) (hts : Behind ts) :
    ∃ r, Written ts r ∧ resume (.list :: frames) s = resume frames r := by
  match vs with
  | [] =>
    rw [furtherElements] at h
    obtain ⟨r, hclose, h⟩ := h.skipBlanks_eq
    exact ⟨r, h, resume_closer hclose⟩
  | v :: vs =>
    rw [furtherElements, List.cons_append, List.append_assoc] at h
    obtain ⟨r1, hcomma, h1⟩ := h.skipBlanks_eq
    obtain ⟨r2, h2, hv⟩ := skipFrames_value v (.list :: frames) h1 (behind_furtherElements vs ts)
    obtain ⟨r3, h3, hvs⟩ := resume_elements vs frames h2 hts
    exact ⟨r3, h3, (resume_comma hcomma).trans (hv.trans hvs)⟩

theorem resume_members (ms : List (List Piece × Value)) (frames : List Frame) {ts : List Token} {s : Bytes}
    (h : Written (furtherMembers ms ++ ts) s) (hts : Behind ts) :
    ∃ r, Written ts r ∧ resume (.object :: frames) s = resume frames r := by
  match ms with
  | [] =>
    rw [furtherMembers] at h
    obtain ⟨r, hclose, h⟩ := h.skipBlanks_eq
    exact ⟨r, h, resume_closer hclose⟩
  | (key, v) :: ms =>
    simp only [furtherMembers, List.cons_append, List.append_assoc] at h
    obtain ⟨r1, hcomma, h1⟩ := h.skipBlanks_eq
    obtain ⟨r2, h2, hkey⟩ := skipKey_written h1
    obtain ⟨r3, h3, hv⟩ := skipFrames_value v (.object :: frames) h2 (behind_furtherMembers ms ts)
    obtain ⟨r4, h4, hms⟩ := resume_members ms frames h3 hts
    refine ⟨r4, h4, ?_⟩
    calc resume (.object :: frames) s
        = (skipKey r1).andThen fun _ r => skipFrames (.object :: frames) r := resume_comma hcomma
      _ = skipFrames (.object :: frames) r2 := by rw [hkey, Reading.andThen_ok]
      _ = resume (.object :: frames) r3 := hv
      _ = resume frames r4 := hms

end

/-- A value is passed over, and nothing behind it but blanks in front of what follows. -/
theorem skipValue_written {v : Value} (h : Written (v.tokens ++ ts) s) (hts : Behind ts) :
    ∃ r, Written ts r ∧ skipValue s = .ok ((), r) := by
  obtain ⟨r, h, hskip⟩ := skipFrames_value v [] h hts
  exact ⟨r, h, hskip.trans (resume_nil r)⟩

end LiveTracks.Json
