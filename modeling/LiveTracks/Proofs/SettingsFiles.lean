import LiveTracks.Proofs.Utf8
import LiveTracks.Settings.Load

/-!
# Settings files

What a path leads to is said by the names that it is made of, and by where each of them leads from the directory that
the ones before it have led to, be it inside the working directory or not (`FileTree.Leads`). Reading succeeds exactly
if the path leads to a file, and reading as text if the bytes of the file are well-formed as well. So loading settings
is parsing such a text, and whatever goes wrong before is told as a failure to read (`Settings.load_of_file`).
-/

namespace LiveTracks

open Json

namespace FileTree

/-! ### What a path leads to -/

def HasDirectory (t : FileTree) (place : List String) : Prop := ∃ entries, t.at? place = some (.directory entries)

/-- Where one name leads from a directory: above the root is the root, and below are the names that the directory
holds. -/
inductive Enters (t : FileTree) : List String → String → List String → Prop
  | here {place : List String} {name : String} : name = "" ∨ name = "." → Enters t place name place
  | above {place : List String} {name : String} : Enters t (name :: place) ".." place
  | root : Enters t [] ".." []
  | below {place : List String} {name : String} : name ≠ "" → name ≠ "." → name ≠ ".." → name.utf8ByteSize ≤ 255 →
    (t.at? (name :: place)).isSome → Enters t place name (name :: place)

/-- The names of a path lead from one place to another, and all that they leave are directories. -/
inductive Follows (t : FileTree) : List String → List String → List String → Prop
  | done (place : List String) : Follows t place [] place
  | next {place next final names : List String} {name : String} : t.HasDirectory place → t.Enters place name next →
    Follows t next names final → Follows t place (name :: names) final

/-- A path leads to a file with this content. -/
structure Leads (t : FileTree) (path : String) (content : List UInt8) : Prop where
  ne_empty : path ≠ ""
  short : path.utf8ByteSize ≤ 4095
  no_nul : '\x00' ∉ path.toList
  follows : ∃ parts final, "/".intercalate parts = path ∧ (∀ part ∈ parts, '/' ∉ part.toList) ∧
    t.Follows (t.start path) parts final ∧ t.at? final = some (.file content)

/-! ### Parts of a path -/

theorem names_intercalate {parts : List String} (hne : parts ≠ []) (h : ∀ part ∈ parts, '/' ∉ part.toList) :
    names ("/".intercalate parts) = parts := by
  have hsplit : ("/".toList.intercalate (parts.map String.toList)).splitOn '/' = parts.map String.toList :=
    List.splitOn_intercalate '/' (by simpa using h) (by simpa using hne)
  rw [names, String.toList_intercalate, hsplit, List.map_map]
  simp

theorem not_mem_of_mem_splitOn {α : Type} [BEq α] [LawfulBEq α] {a : α} {l part : List α} (h : part ∈ l.splitOn a) :
    a ∉ part := by
  induction l generalizing part with
  | nil =>
    rw [List.splitOn_nil, List.mem_singleton] at h
    rw [h]
    exact List.not_mem_nil
  | cons b l ih =>
    rw [List.splitOn_cons_eq_if_modifyHead] at h
    split at h
    · rcases List.mem_cons.1 h with rfl | h
      · exact List.not_mem_nil
      · exact ih h
    · rename_i hb
      cases hl : l.splitOn a with
      | nil => exact absurd hl (List.splitOn_ne_nil a l)
      | cons first rest =>
        rw [hl, List.modifyHead_cons] at h
        rcases List.mem_cons.1 h with rfl | h
        · rw [List.mem_cons, not_or]
          exact ⟨fun hab => hb (by rw [hab]; exact beq_self_eq_true b), ih (by rw [hl]; exact List.mem_cons_self)⟩
        · exact ih (by rw [hl]; exact List.mem_cons_of_mem _ h)

theorem intercalate_names (path : String) : "/".intercalate (names path) = path := by
  have hback : (names path).map String.toList = path.toList.splitOn '/' := by
    rw [names, List.map_map]
    simp
  rw [← String.toList_inj, String.toList_intercalate, hback]
  exact List.intercalate_splitOn '/'

theorem slash_not_mem_names {path part : String} (h : part ∈ names path) : '/' ∉ part.toList := by
  obtain ⟨l, hl, rfl⟩ := List.mem_map.1 h
  rw [String.toList_ofList]
  exact not_mem_of_mem_splitOn hl

/-! ### The walk -/

section Walk

variable {t : FileTree} {place next names final : List String} {name : String}

theorem enters_tail (t : FileTree) (place : List String) : t.Enters place ".." place.tail := by
  cases place with
  | nil => exact .root
  | cons name place => exact .above

theorem at?_cons {entries : List (String × FileNode)} (h : t.at? place = some (.directory entries)) :
    t.at? (name :: place) = entries.lookup name := by
  rw [at?, h]
  rfl

theorem enters_of_step (h : t.step place name = .ok next) : t.HasDirectory place ∧ t.Enters place name next := by
  unfold step at h
  split at h
  · cases h
  · cases h
  rename_i entries hentries
  refine ⟨⟨entries, hentries⟩, ?_⟩
  split at h
  · cases h
    exact .here ‹_›
  rename_i hdot
  rw [not_or] at hdot
  split at h
  · rename_i hdots
    cases h
    rw [hdots]
    exact t.enters_tail place
  rename_i hdots
  split at h
  · cases h
  rename_i hlong
  split at h
  · rename_i hthere
    cases h
    exact .below hdot.1 hdot.2 hdots (Nat.not_lt.1 hlong) (by rwa [at?_cons hentries])
  · cases h

theorem step_of_enters (hdir : t.HasDirectory place) (h : t.Enters place name next) : t.step place name = .ok next := by
  obtain ⟨entries, hentries⟩ := hdir
  simp only [step, hentries]
  cases h with
  | here hname => exact if_pos hname
  | above | root => rfl
  | below hempty hdot hdots hshort hthere =>
    rw [at?_cons hentries] at hthere
    rw [if_neg (not_or.2 ⟨hempty, hdot⟩), if_neg hdots, maxName, if_neg (Nat.not_lt.2 hshort), if_pos hthere]

/-- Following names is walking along them. -/
theorem walk_eq_ok_iff : t.walk place names = .ok final ↔ t.Follows place names final := by
  induction names generalizing place with
  | nil =>
    constructor
    · intro h
      cases h
      exact .done _
    · intro h
      cases h
      rfl
  | cons name names ih =>
    constructor
    · intro h
      cases hstep : t.step place name with
      | error e =>
        rw [walk, List.foldlM_cons, hstep] at h
        cases h
      | ok next =>
        rw [walk, List.foldlM_cons, hstep] at h
        obtain ⟨hdir, henters⟩ := enters_of_step hstep
        exact .next hdir henters (ih.1 h)
    · intro h
      cases h with
      | next hdir henters hrest =>
        rw [walk, List.foldlM_cons, step_of_enters hdir henters]
        exact ih.2 hrest

end Walk

/-! ### Reading -/

variable {t : FileTree}

theorem readBytes_eq_ok_iff {path : String} {content : List UInt8} :
    t.readBytes path = .ok content ↔ t.Leads path content := by
  constructor
  · intro h
    unfold readBytes at h
    split at h
    · cases h
    rename_i hnul
    split at h
    · cases h
    rename_i hempty
    split at h
    · cases h
    rename_i hlong
    refine ⟨hempty, Nat.not_lt.1 hlong, by simpa using hnul, ?_⟩
    split at h
    · cases h
    rename_i final hwalk
    split at h
    · cases h
    · cases h
    rename_i hfile
    cases h
    exact ⟨names path, final, intercalate_names path, fun part => slash_not_mem_names, walk_eq_ok_iff.1 hwalk, hfile⟩
  · intro h
    obtain ⟨parts, final, rfl, hparts, hfollows, hfile⟩ := h.follows
    have hne : parts ≠ [] := by
      rintro rfl
      exact h.ne_empty rfl
    have hnul : ("/".intercalate parts).toList.contains '\x00' = false := by simpa using h.no_nul
    unfold readBytes
    rw [hnul, if_neg Bool.false_ne_true, if_neg h.ne_empty, maxPath, if_neg (Nat.not_lt.2 h.short),
      names_intercalate hne hparts, walk_eq_ok_iff.2 hfollows]
    simp only [hfile]

/-- A path leads to one file at most. -/
theorem Leads.content_unique {path : String} {a b : List UInt8} (ha : t.Leads path a) (hb : t.Leads path b) :
    a = b := by
  have h := (readBytes_eq_ok_iff.2 ha).symm.trans (readBytes_eq_ok_iff.2 hb)
  cases h
  rfl

theorem step_ne_notText (t : FileTree) (place : List String) (name : String) : t.step place name ≠ .error .notText := by
  unfold step
  split
  · simp
  · simp
  split
  · simp
  split
  · simp
  split
  · simp
  split <;> simp

theorem walk_ne_notText (t : FileTree) (place names : List String) : t.walk place names ≠ .error .notText := by
  induction names generalizing place with
  | nil => simp [walk, pure, Except.pure]
  | cons name names ih =>
    rw [walk, List.foldlM_cons]
    cases hstep : t.step place name with
    | ok next => exact ih next
    | error e =>
      intro h
      cases h
      exact t.step_ne_notText place name hstep

/-- A path alone does not make bytes ill-formed. -/
theorem readBytes_ne_notText (t : FileTree) (path : String) : t.readBytes path ≠ .error .notText := by
  unfold readBytes
  split
  · simp
  split
  · simp
  split
  · simp
  split
  · rename_i hwalk
    intro h
    cases h
    exact t.walk_ne_notText _ _ hwalk
  · split <;> simp

theorem readText_of_isUtf8 {path : String} {content : List UInt8} (h : t.Leads path content)
    (hcontent : IsUtf8 content) : ∃ text, bytesOf text = content ∧ t.readText path = .ok text := by
  obtain ⟨text, htext⟩ := isUtf8_iff.1 hcontent
  refine ⟨text, htext, ?_⟩
  rw [readText, readBytes_eq_ok_iff.2 h]
  simp only [fromUTF8?_eq_some_iff.2 htext]

theorem readText_of_not_isUtf8 {path : String} {content : List UInt8} (h : t.Leads path content)
    (hcontent : ¬ IsUtf8 content) : t.readText path = .error .notText := by
  have hnone : String.fromUTF8? ⟨content.toArray⟩ = none :=
    Option.eq_none_iff_forall_ne_some.2 fun text htext =>
      hcontent (isUtf8_iff.2 ⟨text, fromUTF8?_eq_some_iff.1 htext⟩)
  rw [readText, readBytes_eq_ok_iff.2 h]
  simp only [hnone]

theorem readText_of_not_leads {path : String} (h : ∀ content, ¬ t.Leads path content) :
    ∃ cause, t.readText path = .error cause ∧ cause ≠ .notText := by
  cases hbytes : t.readBytes path with
  | ok content => exact absurd (readBytes_eq_ok_iff.1 hbytes) (h content)
  | error cause =>
    refine ⟨cause, by rw [readText, hbytes], ?_⟩
    rintro rfl
    exact readBytes_ne_notText t path hbytes

end FileTree

/-! ### Loading -/

namespace Settings

open FileTree

variable {t : FileTree} {path : String}

theorem load_of_text {text : String} (h : t.readText path = .ok text) :
    load t path = (parse text).mapError .unparsable := by
  rw [load, h]
  simp only
  cases parse text <;> rfl

theorem load_of_unread {cause : ReadError} (h : t.readText path = .error cause) :
    load t path = .error (.unreadable path cause) := by
  rw [load, h]

/-- Loading settings is reading a text and parsing it, and the failures of the two are told apart: if the path leads
to a file with well-formed bytes, the settings, or what is wrong with them, are those of its text. Otherwise the path
is told, and why it is not read. -/
theorem load_of_file (t : FileTree) (path : String) :
    (∀ content, t.Leads path content → IsUtf8 content → ∃ text, bytesOf text = content ∧
      load t path = (parse text).mapError .unparsable ∧
      (load t path).mapError LoadError.message = (parse text).mapError ParseError.message) ∧
    ((¬ ∃ content, t.Leads path content ∧ IsUtf8 content) →
      ∃ cause, load t path = .error (.unreadable path cause) ∧
        (cause = .notText ↔ ∃ content, t.Leads path content)) := by
  constructor
  · intro content hleads hcontent
    obtain ⟨text, htext, hread⟩ := readText_of_isUtf8 hleads hcontent
    refine ⟨text, htext, load_of_text hread, ?_⟩
    rw [load_of_text hread]
    cases parse text <;> rfl
  · intro hnone
    by_cases hleads : ∃ content, t.Leads path content
    · obtain ⟨content, hcontent⟩ := hleads
      have hread := readText_of_not_isUtf8 hcontent fun hw => hnone ⟨content, hcontent, hw⟩
      exact ⟨_, load_of_unread hread, fun _ => ⟨content, hcontent⟩, fun _ => rfl⟩
    · obtain ⟨cause, hread, hcause⟩ := readText_of_not_leads fun content h => hleads ⟨content, h⟩
      exact ⟨cause, load_of_unread hread, fun h => absurd h hcause, fun h => absurd h hleads⟩

/-- Settings in the directory that one works in, and beside it a file that is not text. -/
def desk : FileTree where
  root := .directory [("app", .directory [("a.json", .file [0x7B, 0x7D])]), ("raw", .file [0xED, 0xA0, 0x80])]
  workdir := ["app"]

theorem load_of_file_desk :
    (desk.Leads "../app/./a.json" [0x7B, 0x7D] ∧ IsUtf8 [0x7B, 0x7D] ∧
      ∃ text, bytesOf text = [0x7B, 0x7D] ∧ load desk "../app/./a.json" = (parse text).mapError .unparsable) ∧
    (desk.Leads "../../raw" [0xED, 0xA0, 0x80] ∧ ¬ IsUtf8 [0xED, 0xA0, 0x80] ∧
      load desk "../../raw" = .error (.unreadable "../../raw" .notText)) ∧
    (∀ content, ¬ desk.Leads "a.json/" content) ∧
      ∃ cause, load desk "a.json/" = .error (.unreadable "a.json/" cause) ∧ cause ≠ .notText := by
  have hsettings : desk.Leads "../app/./a.json" [0x7B, 0x7D] := readBytes_eq_ok_iff.1 (by rfl)
  have hraw : desk.Leads "../../raw" [0xED, 0xA0, 0x80] := readBytes_eq_ok_iff.1 (by rfl)
  have hslash : ∀ content, ¬ desk.Leads "a.json/" content := fun content h => by
    cases readBytes_eq_ok_iff.2 h
  have htext : IsUtf8 [0x7B, 0x7D] := by decide +kernel
  have hbad : ¬ IsUtf8 [0xED, 0xA0, 0x80] := by decide +kernel
  obtain ⟨text, hbytes, hload, -⟩ := (load_of_file desk "../app/./a.json").1 _ hsettings htext
  have hunread : ¬ ∃ content, desk.Leads "../../raw" content ∧ IsUtf8 content := by
    rintro ⟨content, hcontent, hw⟩
    exact hbad (hcontent.content_unique hraw ▸ hw)
  obtain ⟨cause, hrefused, hcause⟩ := (load_of_file desk "../../raw").2 hunread
  cases hcause.2 ⟨_, hraw⟩
  obtain ⟨cause', hnowhere, hcause'⟩ := (load_of_file desk "a.json/").2 fun hh => hslash _ hh.choose_spec.1
  exact ⟨⟨hsettings, htext, text, hbytes, hload⟩, ⟨hraw, hbad, hrefused⟩, hslash, cause', hnowhere,
    fun h => (hcause'.1 h).elim hslash⟩

end Settings

end LiveTracks
