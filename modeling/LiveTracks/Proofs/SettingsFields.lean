import LiveTracks.Settings.Reader
import LiveTracks.Proofs.JsonScalars
import Mathlib.Data.List.Nodup

/-!
# What the members of an object say

A list of members is well formed if no field is given twice and every field has a value of its kind (`WellFormed`); it
then stands for the settings that have each word where it is given and the default where none is (`settingsOf`). A
reader that takes up the members one after the other ends with these settings (`complete_members_iff`), and neither
their order nor members of other names change anything (`settingsOf_of_perm`, `settingsOf_known`).
-/

namespace LiveTracks.Settings

open Json

/-- A member of an object. Its key is a text, however it is written. -/
structure Member where
  key : List Letter
  value : Value

def Member.name (m : Member) : String := textOf m.key

/-- The field that a member is named for, if any. -/
def Member.field? (m : Member) : Option Field := Field.all.find? fun f => f.name == m.name

def wordOf? : Value → Option UInt64
  | .number x => x.word?
  | _ => none

/-- Every field is a word, and the number of workers may be left open. -/
def Field.Fits (f : Field) (v : Value) : Prop := (∃ n, wordOf? v = some n) ∨ f = .numWorkers ∧ v = .null

def fieldsOf (members : List Member) : List Field := members.filterMap Member.field?

structure WellFormed (members : List Member) : Prop where
  once : (fieldsOf members).Nodup
  fitting : ∀ m ∈ members, ∀ f ∈ m.field?, f.Fits m.value

def memberFor? (members : List Member) (f : Field) : Option Member := members.find? fun m => m.field? = some f

def wordFor? (members : List Member) (f : Field) : Option UInt64 :=
  (memberFor? members f).bind fun m => wordOf? m.value

def settingsOf (members : List Member) : Settings where
  lostTtlSecs := (wordFor? members .lostTtlSecs).getD default.lostTtlSecs
  activeTtlSecs := (wordFor? members .activeTtlSecs).getD default.activeTtlSecs
  sweepIntervalMs := (wordFor? members .sweepIntervalMs).getD default.sweepIntervalMs
  numWorkers := wordFor? members .numWorkers

/-! ### Taking up one member -/

/-- What a field takes from a value. -/
def Field.taken? : Field → Value → Option (Option UInt64)
  | .numWorkers, .null => some none
  | _, v => (wordOf? v).map some

theorem Field.taken?_isSome_iff (f : Field) (v : Value) : (f.taken? v).isSome ↔ f.Fits v := by
  cases f <;> cases v <;> simp [taken?, Fits, wordOf?, Option.isSome_iff_exists]

instance (f : Field) (v : Value) : Decidable (f.Fits v) := decidable_of_iff _ (f.taken?_isSome_iff v)

instance (members : List Member) : Decidable (WellFormed members) :=
  decidable_of_iff ((fieldsOf members).Nodup ∧ ∀ m ∈ members, ∀ f ∈ m.field?, f.Fits m.value)
    ⟨fun h => ⟨h.1, h.2⟩, fun h => ⟨h.once, h.fitting⟩⟩

theorem Field.join_taken? (f : Field) (v : Value) : (f.taken? v).join = wordOf? v := by
  cases hword : wordOf? v <;> cases f <;> cases v <;> simp_all [taken?, wordOf?]

namespace Draft

def value? (d : Draft) : Field → Option (Option UInt64)
  | .lostTtlSecs => d.lostTtlSecs.map some
  | .activeTtlSecs => d.activeTtlSecs.map some
  | .sweepIntervalMs => d.sweepIntervalMs.map some
  | .numWorkers => d.numWorkers

theorem has_eq (d : Draft) (f : Field) : d.has f = (d.value? f).isSome := by
  cases f <;> simp [has, value?]

def give? (d : Draft) (f : Field) (v : Value) : Option Draft :=
  match f with
  | .lostTtlSecs => (wordOf? v).map fun n => { d with lostTtlSecs := some n }
  | .activeTtlSecs => (wordOf? v).map fun n => { d with activeTtlSecs := some n }
  | .sweepIntervalMs => (wordOf? v).map fun n => { d with sweepIntervalMs := some n }
  | .numWorkers => (Field.taken? .numWorkers v).map fun n => { d with numWorkers := some n }

def put? (d : Draft) (m : Member) : Option Draft :=
  match m.field? with
  | none => some d
  | some f => if d.has f then none else d.give? f m.value

variable {d d' : Draft} {f : Field} {v : Value}

theorem give?_isSome_iff : (d.give? f v).isSome ↔ f.Fits v := by
  rw [← Field.taken?_isSome_iff]
  cases f <;> simp [give?, Field.taken?]

theorem value?_of_give? (h : d.give? f v = some d') (g : Field) :
    d'.value? g = if g = f then f.taken? v else d.value? g := by
  cases f with
  | numWorkers =>
    obtain ⟨n, hn, rfl⟩ := Option.map_eq_some_iff.1 h
    cases g <;> simp [value?, hn]
  | _ =>
    obtain ⟨n, hn, rfl⟩ := Option.map_eq_some_iff.1 h
    cases g <;> simp [value?, Field.taken?, hn]

theorem complete_eq {members : List Member}
    (h : ∀ f, d.value? f = (memberFor? members f).bind fun m => f.taken? m.value) :
    d.complete = settingsOf members := by
  have hjoin (f : Field) : (d.value? f).join = wordFor? members f := by
    rw [h, wordFor?]
    cases memberFor? members f with
    | none => rfl
    | some m => exact f.join_taken? m.value
  have hword (o : Option UInt64) : (o.map some).join = o := by cases o <;> rfl
  have hlost : d.lostTtlSecs = _ := (hword _).symm.trans (hjoin .lostTtlSecs)
  have hactive : d.activeTtlSecs = _ := (hword _).symm.trans (hjoin .activeTtlSecs)
  have hinterval : d.sweepIntervalMs = _ := (hword _).symm.trans (hjoin .sweepIntervalMs)
  have hworkers : d.numWorkers.getD none = _ := (show d.numWorkers.getD none = d.numWorkers.join by
    cases d.numWorkers <;> rfl).trans (hjoin .numWorkers)
  rw [complete, settingsOf, hlost, hactive, hinterval, ← hworkers]
  rfl

theorem put?_of_none {m : Member} (h : m.field? = none) : d.put? m = some d := by
  rw [put?, h]

theorem put?_eq_some_iff {m : Member} (h : m.field? = some f) :
    d.put? m = some d' ↔ d.value? f = none ∧ d.give? f m.value = some d' := by
  simp only [put?, h, has_eq]
  cases d.value? f <;> simp

end Draft

/-! ### Taking up all members -/

variable {d d' : Draft} {m : Member} {members : List Member}

theorem fieldsOf_cons_none (h : m.field? = none) : fieldsOf (m :: members) = fieldsOf members := by
  rw [fieldsOf, List.filterMap_cons, h]
  rfl

theorem fieldsOf_cons_some {f : Field} (h : m.field? = some f) : fieldsOf (m :: members) = f :: fieldsOf members := by
  rw [fieldsOf, List.filterMap_cons, h]
  rfl

theorem wellFormed_cons_none (h : m.field? = none) : WellFormed (m :: members) ↔ WellFormed members := by
  constructor
  · rintro ⟨honce, hfitting⟩
    rw [fieldsOf_cons_none h] at honce
    exact ⟨honce, fun m' hm' => hfitting m' (List.mem_cons_of_mem m hm')⟩
  · rintro ⟨honce, hfitting⟩
    refine ⟨by rwa [fieldsOf_cons_none h], fun m' hm' f hf => ?_⟩
    obtain rfl | hm' := List.mem_cons.1 hm'
    · rw [h] at hf
      cases hf
    · exact hfitting m' hm' f hf

theorem wellFormed_cons_some {f : Field} (h : m.field? = some f) :
    WellFormed (m :: members) ↔ f.Fits m.value ∧ f ∉ fieldsOf members ∧ WellFormed members := by
  constructor
  · rintro ⟨honce, hfitting⟩
    rw [fieldsOf_cons_some h, List.nodup_cons] at honce
    exact ⟨hfitting m List.mem_cons_self f h, honce.1, honce.2,
      fun m' hm' => hfitting m' (List.mem_cons_of_mem m hm')⟩
  · rintro ⟨hfits, hnew, honce, hfitting⟩
    refine ⟨by rw [fieldsOf_cons_some h]; exact List.nodup_cons.2 ⟨hnew, honce⟩, fun m' hm' g hg => ?_⟩
    obtain rfl | hm' := List.mem_cons.1 hm'
    · obtain rfl : f = g := Option.some_inj.1 (h.symm.trans hg)
      exact hfits
    · exact hfitting m' hm' g hg

theorem memberFor?_cons (f : Field) :
    memberFor? (m :: members) f = if m.field? = some f then some m else memberFor? members f := by
  rw [memberFor?, List.find?_cons]
  by_cases h : m.field? = some f <;> simp [h, memberFor?]

theorem memberFor?_eq_none {f : Field} (h : f ∉ fieldsOf members) : memberFor? members f = none := by
  refine List.find?_eq_none.2 fun m hm hf => h (List.mem_filterMap.2 ⟨m, hm, ?_⟩)
  simpa using hf

/-- What is taken up of well formed members, if no field of theirs was given before. -/
theorem foldlM_put?_of_wellFormed (h : WellFormed members) (hd : ∀ f ∈ fieldsOf members, d.value? f = none) :
    ∃ d', members.foldlM Draft.put? d = some d' ∧
      ∀ f, d'.value? f = ((memberFor? members f).bind fun m => f.taken? m.value).or (d.value? f) := by
  induction members generalizing d with
  | nil => exact ⟨d, rfl, fun f => rfl⟩
  | cons m members ih =>
    cases hfield : m.field? with
    | none =>
      rw [fieldsOf_cons_none hfield] at hd
      obtain ⟨d', hfold, hvalue⟩ := ih ((wellFormed_cons_none hfield).1 h) hd
      refine ⟨d', by rw [List.foldlM_cons, Draft.put?_of_none hfield]; exact hfold, fun f => ?_⟩
      have hne : m.field? ≠ some f := by rw [hfield]; exact nofun
      rw [hvalue, memberFor?_cons, if_neg hne]
    | some f =>
      obtain ⟨hfits, hnew, hmembers⟩ := (wellFormed_cons_some hfield).1 h
      rw [fieldsOf_cons_some hfield] at hd
      obtain ⟨d1, hgive⟩ := Option.isSome_iff_exists.1 (Draft.give?_isSome_iff.2 hfits)
      have hput : d.put? m = some d1 := (Draft.put?_eq_some_iff hfield).2 ⟨hd f List.mem_cons_self, hgive⟩
      have hfresh : ∀ g ∈ fieldsOf members, d1.value? g = none := by
        intro g hg
        have hne : g ≠ f := fun hgf => hnew (hgf ▸ hg)
        rw [Draft.value?_of_give? hgive, if_neg hne]
        exact hd g (List.mem_cons_of_mem f hg)
      obtain ⟨d', hfold, hvalue⟩ := ih hmembers hfresh
      refine ⟨d', by rw [List.foldlM_cons, hput]; exact hfold, fun g => ?_⟩
      rw [hvalue, memberFor?_cons, Draft.value?_of_give? hgive, hfield]
      by_cases hgf : g = f
      · obtain ⟨x, hx⟩ := Option.isSome_iff_exists.1 ((f.taken?_isSome_iff m.value).2 hfits)
        rw [hgf, memberFor?_eq_none hnew, if_pos rfl, if_pos rfl, Option.bind_none, Option.none_or, Option.bind_some,
          hx]
        rfl
      · rw [if_neg hgf, if_neg fun he => hgf (Option.some_inj.1 he).symm]

theorem wellFormed_of_foldlM_put? (h : members.foldlM Draft.put? d = some d') :
    WellFormed members ∧ ∀ f ∈ fieldsOf members, d.value? f = none := by
  induction members generalizing d with
  | nil => exact ⟨⟨List.nodup_nil, fun _ hm => absurd hm List.not_mem_nil⟩, fun _ hf => absurd hf List.not_mem_nil⟩
  | cons m members ih =>
    rw [List.foldlM_cons] at h
    obtain ⟨d1, hput, h⟩ := Option.bind_eq_some_iff.1 h
    obtain ⟨hmembers, hfresh⟩ := ih h
    cases hfield : m.field? with
    | none =>
      obtain rfl : d = d1 := Option.some_inj.1 ((Draft.put?_of_none hfield).symm.trans hput)
      exact ⟨(wellFormed_cons_none hfield).2 hmembers, by rwa [fieldsOf_cons_none hfield]⟩
    | some f =>
      obtain ⟨hf, hgive⟩ := (Draft.put?_eq_some_iff hfield).1 hput
      have hfits : f.Fits m.value := Draft.give?_isSome_iff.1 (by rw [hgive]; rfl)
      have hnew : f ∉ fieldsOf members := by
        intro hmem
        have hnone := hfresh f hmem
        rw [Draft.value?_of_give? hgive, if_pos rfl] at hnone
        have hsome := (f.taken?_isSome_iff m.value).2 hfits
        rw [hnone] at hsome
        exact Bool.false_ne_true hsome
      refine ⟨(wellFormed_cons_some hfield).2 ⟨hfits, hnew, hmembers⟩, fun g hg => ?_⟩
      rw [fieldsOf_cons_some hfield] at hg
      obtain rfl | hg := List.mem_cons.1 hg
      · exact hf
      · have hne : g ≠ f := fun hgf => hnew (hgf ▸ hg)
        have hnone := hfresh g hg
        rwa [Draft.value?_of_give? hgive, if_neg hne] at hnone

/-- Members that are taken up in turn give their settings, if they are well formed and only then. -/
theorem complete_members_iff {s : Settings} :
    (members.foldlM Draft.put? {}).map Draft.complete = some s ↔ WellFormed members ∧ s = settingsOf members := by
  have hnothing (f : Field) : Draft.value? {} f = none := by cases f <;> rfl
  have hfold (h : WellFormed members) :
      (members.foldlM Draft.put? {}).map Draft.complete = some (settingsOf members) := by
    obtain ⟨d, hfold, hvalue⟩ := foldlM_put?_of_wellFormed h fun f _ => hnothing f
    rw [hfold, Option.map_some, Draft.complete_eq fun f => ?_]
    rw [hvalue, hnothing, Option.or_none]
  constructor
  · intro h
    obtain ⟨d, hd, -⟩ := Option.map_eq_some_iff.1 h
    have hmembers := (wellFormed_of_foldlM_put? hd).1
    exact ⟨hmembers, Option.some_inj.1 (h.symm.trans (hfold hmembers))⟩
  · rintro ⟨h, rfl⟩
    exact hfold h

/-! ### Other members and another order -/

/-- The members that are named for a field. -/
def known (members : List Member) : List Member := members.filter fun m => m.field?.isSome

theorem fieldsOf_known (members : List Member) : fieldsOf (known members) = fieldsOf members := by
  rw [fieldsOf, known, List.filterMap_filter, fieldsOf]
  congr 1
  funext m
  cases m.field? <;> rfl

theorem memberFor?_known (members : List Member) (f : Field) : memberFor? (known members) f = memberFor? members f := by
  rw [memberFor?, known, List.find?_filter, memberFor?]
  congr 1
  funext m
  cases m.field? <;> simp

theorem wellFormed_known : WellFormed (known members) ↔ WellFormed members := by
  constructor
  · rintro ⟨honce, hfitting⟩
    refine ⟨fieldsOf_known members ▸ honce, fun m hm f hf => ?_⟩
    exact hfitting m (List.mem_filter.2 ⟨hm, by rw [hf]; rfl⟩) f hf
  · rintro ⟨honce, hfitting⟩
    exact ⟨(fieldsOf_known members).symm ▸ honce, fun m hm => hfitting m (List.mem_filter.1 hm).1⟩

theorem settingsOf_known (members : List Member) : settingsOf (known members) = settingsOf members := by
  simp only [settingsOf, wordFor?, memberFor?_known]

theorem wellFormed_of_perm {members' : List Member} (hperm : members.Perm members') (h : WellFormed members) :
    WellFormed members' :=
  ⟨(hperm.filterMap _).nodup_iff.1 h.once, fun m hm => h.fitting m (hperm.mem_iff.2 hm)⟩

/-- A field that is given once is given by the same member in any order. -/
theorem memberFor?_of_perm {members' : List Member} (hperm : members.Perm members') (h : WellFormed members)
    (f : Field) : memberFor? members f = memberFor? members' f := by
  have hcount : (members.filter fun m => m.field? = some f).length = (fieldsOf members).count f := by
    rw [fieldsOf, List.count, List.countP_filterMap, ← List.countP_eq_length_filter]
    congr 1
    funext m
    cases hm : m.field? <;> simp [beq_eq_decide]
  have hone : (members.filter fun m => m.field? = some f).length ≤ 1 :=
    hcount.trans_le (List.nodup_iff_count_le_one.1 h.once f)
  have hfilter := hperm.filter fun m => m.field? = some f
  rw [memberFor?, memberFor?, ← List.head?_filter, ← List.head?_filter]
  match hmembers : members.filter fun m => m.field? = some f with
  | [] =>
    rw [hmembers] at hfilter
    rw [hmembers, ← hfilter.nil_eq]
  | [m] =>
    rw [hmembers] at hfilter
    rw [hmembers, ← List.singleton_perm.1 hfilter]
  | _ :: _ :: _ =>
    rw [hmembers] at hone
    simp at hone

theorem settingsOf_of_perm {members' : List Member} (hperm : members.Perm members') (h : WellFormed members) :
    settingsOf members = settingsOf members' := by
  simp only [settingsOf, wordFor?, memberFor?_of_perm hperm h]

/-- Members that agree on the fields, in whatever order, are well formed together. -/
theorem wellFormed_congr {members' : List Member} (h : (known members').Perm (known members)) :
    WellFormed members' ↔ WellFormed members := by
  rw [← wellFormed_known, ← @wellFormed_known members]
  exact ⟨wellFormed_of_perm h, wellFormed_of_perm h.symm⟩

theorem settingsOf_congr {members' : List Member} (h : (known members').Perm (known members))
    (hmembers : WellFormed members) : settingsOf members' = settingsOf members := by
  rw [← settingsOf_known members', ← settingsOf_known members]
  exact (settingsOf_of_perm h.symm (wellFormed_known.2 hmembers)).symm

end LiveTracks.Settings
