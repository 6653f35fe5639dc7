import Scrutiny.Proofs.Preference.File
import Scrutiny.Proofs.Tree.Resaving

/-!
The layout of a log that nobody edits.  Such a log is the template with the bullets of the
accepted entries below one header and those of the rejected entries below the other, both in the
order in which they were added.  An entry is put behind the bullets of its section, so adding one
leads from a layout to the layout with one entry more.
-/

open Scrutiny.Text

namespace Scrutiny.PreferenceLog

/-! ## 1. The layout -/

/-- The entries with a decision, in order. -/
def decided (decision : Decision) (entries : List PreferenceEntry) : List PreferenceEntry :=
  entries.filter fun entry => entry.decision = decision

/-- The entries in the order of their bullets: those that were accepted, then the rejected ones. -/
def filed (entries : List PreferenceEntry) : List PreferenceEntry :=
  decided .accepted entries ++ decided .rejected entries

/-- A decision's section: its header, and a bullet for each of its entries. -/
def sectionText (decision : Decision) (entries : List PreferenceEntry) : String :=
  decision.header ++ "\n" ++
    String.join ((decided decision entries).map fun entry => entry.bullet ++ "\n")

/-- The text of a log that holds the entries and nothing else. -/
def layout (entries : List PreferenceEntry) : String :=
  "# Preferences\n\n" ++ sectionText .accepted entries ++ "\n" ++ sectionText .rejected entries

theorem layout_nil : layout [] = template := by
  decide

def bullets (decision : Decision) (entries : List PreferenceEntry) : List (List Char) :=
  (decided decision entries).map fun entry => entry.bullet.toList

/-- The rows of a layout. -/
def layoutRows (entries : List PreferenceEntry) : List (List Char) :=
  "# Preferences".toList :: [] :: Decision.accepted.header.toList ::
    (bullets .accepted entries ++
      [] :: Decision.rejected.header.toList :: bullets .rejected entries)

theorem toList_sectionText (decision : Decision) (entries : List PreferenceEntry) :
    (sectionText decision entries).toList =
      (decision.header.toList :: bullets decision entries).flatMap fun row => row ++ ['\n'] := by
  simp [sectionText, bullets, String.toList_join, List.flatMap_map]

theorem toList_layout (entries : List PreferenceEntry) :
    (layout entries).toList = (layoutRows entries).flatMap fun row => row ++ ['\n'] := by
  have htop : "# Preferences\n\n".toList = "# Preferences".toList ++ ['\n'] ++ ['\n'] := by decide
  unfold layout
  rw [String.toList_append, String.toList_append, String.toList_append, htop, toList_sectionText,
    toList_sectionText, layoutRows]
  simp only [List.flatMap_cons, List.flatMap_append, List.append_assoc, List.nil_append]
  rfl

theorem bullets_concat (decision : Decision) (entries : List PreferenceEntry)
    (entry : PreferenceEntry) :
    bullets decision (entries ++ [entry]) = bullets decision entries ++
      if entry.decision = decision then [entry.bullet.toList] else [] := by
  rw [bullets, bullets, decided, decided, List.filter_append, List.map_append,
    List.filter_singleton]
  by_cases h : entry.decision = decision <;> simp [h]

theorem exists_of_mem_bullets {decision : Decision} {entries : List PreferenceEntry}
    {row : List Char} (h : row ∈ bullets decision entries) :
    ∃ entry : PreferenceEntry, row = entry.bullet.toList := by
  obtain ⟨entry, -, rfl⟩ := List.mem_map.mp h
  exact ⟨entry, rfl⟩

theorem head?_bullet (entry : PreferenceEntry) : entry.bullet.toList.head? = some '-' := by
  simp [PreferenceEntry.toList_bullet, PreferenceEntry.lead]

theorem not_blank_bullet (entry : PreferenceEntry) :
    isBlankText entry.bullet.toList = false := by
  obtain ⟨rest, hrest⟩ := List.head?_eq_some_iff.mp (head?_bullet entry)
  rw [hrest]
  rfl

theorem trimEnd_bullet_ne_header (entry : PreferenceEntry) (decision : Decision) :
    trimEnd entry.bullet.toList ≠ decision.header.toList := by
  intro h
  have hheader := isHeader_bullet entry
  rw [isHeader, h] at hheader
  cases decision <;> exact absurd hheader (by decide)

theorem unbroken_header (decision : Decision) : Unbroken decision.header.toList := by
  cases decision <;> simp [Decision.header]

/-- The rows of a layout are its lines. -/
theorem lines_layout (entries : List PreferenceEntry) :
    lines (layout entries).toList = layoutRows entries := by
  have hbullets : ∀ decision : Decision, ∀ row ∈ bullets decision entries, Unbroken row := by
    intro decision row hrow
    obtain ⟨entry, rfl⟩ := exists_of_mem_bullets hrow
    exact unbroken_bullet entry
  have hrows : ∀ row ∈ layoutRows entries, Unbroken row := by
    simp only [layoutRows, List.forall_mem_cons, List.forall_mem_append]
    exact ⟨by simp, unbroken_nil, unbroken_header _, hbullets _, unbroken_nil, unbroken_header _,
      hbullets _⟩
  rw [toList_layout, lines_flatMap hrows]

/-! ## 2. One entry more -/

/-- An entry's bullet is put behind those of its section.  What follows them is nothing, or a
blank row and the next header. -/
theorem exists_place (entries : List PreferenceEntry) (entry : PreferenceEntry) :
    ∃ above blanks rest,
      layoutRows entries = above ++ entry.decision.header.toList ::
        (bullets entry.decision entries ++ (blanks ++ rest)) ∧
      layoutRows (entries ++ [entry]) = above ++ entry.decision.header.toList ::
        (bullets entry.decision entries ++ entry.bullet.toList :: (blanks ++ rest)) ∧
      (∀ row ∈ above, trimEnd row ≠ entry.decision.header.toList) ∧
      (∀ row ∈ blanks, isBlankText row = true) ∧ (∀ row ∈ rest.head?, row.head? = some '#') ∧
      (blanks ≠ [] ∨ rest = []) := by
  cases hdecision : entry.decision with
  | accepted =>
    refine ⟨["# Preferences".toList, []], [[]],
      Decision.rejected.header.toList :: bullets .rejected entries, ?_, ?_, ?_, ?_, ?_, ?_⟩
    · simp [layoutRows]
    · simp [layoutRows, bullets_concat, hdecision]
    · decide
    · simp [isBlankText]
    · simp [Decision.header]
    · simp
  | rejected =>
    refine ⟨"# Preferences".toList :: [] :: Decision.accepted.header.toList ::
      (bullets .accepted entries ++ [[]]), [], [], ?_, ?_, ?_, ?_, ?_, ?_⟩
    · simp [layoutRows]
    · simp [layoutRows, bullets_concat, hdecision]
    · -- the rows above are known, or they are bullets
      simp only [List.forall_mem_cons, List.forall_mem_append]
      refine ⟨by decide, by decide, by decide, fun row hrow => ?_, by decide⟩
      obtain ⟨other, rfl⟩ := exists_of_mem_bullets hrow
      exact trimEnd_bullet_ne_header other .rejected
    · simp
    · simp
    · simp

theorem insertChars_layout (entries : List PreferenceEntry) (entry : PreferenceEntry) :
    insertChars (layout entries).toList entry.decision entry.bullet.toList =
      (layout (entries ++ [entry])).toList := by
  obtain ⟨above, blanks, rest, hrows, hmore, habove, hblanks, hrest, hend⟩ :=
    exists_place entries entry
  have hfilled : ∀ row ∈ bullets entry.decision entries,
      row.head? ≠ some '#' ∧ isBlankText row = false := by
    intro row hrow
    obtain ⟨other, rfl⟩ := exists_of_mem_bullets hrow
    exact ⟨by simp [head?_bullet], not_blank_bullet other⟩
  rw [insertChars, lines_layout, hrows, splitAtHeader?_append habove (trimEnd_header _)]
  dsimp only
  rw [insertBelow_append _ hfilled hblanks hrest hend, ← hmore, toList_layout]
  exact unlines_eq_flatMap (List.cons_ne_nil _ _)

theorem insert_layout (entries : List PreferenceEntry) (entry : PreferenceEntry) :
    insert (layout entries) entry = layout (entries ++ [entry]) := by
  have hblank : isBlankText (layout entries).toList = false := by
    rw [toList_layout]
    rfl
  rw [insert, hblank, if_neg Bool.false_ne_true, insertChars_layout, String.ofList_toList]

/-- A blank log is taken for a layout without entries. -/
theorem insert_of_blank {text : String} (h : isBlankText text.toList = true)
    (entry : PreferenceEntry) : insert text entry = layout [entry] := by
  rw [insert, if_pos h, ← layout_nil, insertChars_layout, String.ofList_toList]
  rfl

theorem foldl_insert_layout (entries more : List PreferenceEntry) :
    more.foldl insert (layout entries) = layout (entries ++ more) := by
  induction more generalizing entries with
  | nil => rw [List.foldl_nil, List.append_nil]
  | cons entry more ih => rw [List.foldl_cons, insert_layout, ih, List.append_assoc]; rfl

/-! ## 3. Reading a layout -/

/-- What the bullet of an entry is read as. -/
def readBack? (entry : PreferenceEntry) : Option PreferenceEntry :=
  PreferenceEntry.ofBullet? entry.decision (trimEnd entry.bullet.toList)

theorem sectionAfter_bullets (current : Option Decision) (decision : Decision)
    (entries : List PreferenceEntry) :
    sectionAfter current (bullets decision entries) = current := by
  refine sectionAfter_of_no_header current fun row hrow => ?_
  obtain ⟨entry, rfl⟩ := exists_of_mem_bullets hrow
  exact isHeader_bullet entry

-- Bullets of entries with one decision, read in the decision's section.
theorem entriesOfLines_map_bullet {decision : Decision} {entries : List PreferenceEntry}
    (h : ∀ entry ∈ entries, entry.decision = decision) :
    entriesOfLines (some decision) (entries.map fun entry => entry.bullet.toList) =
      entries.filterMap readBack? := by
  induction entries with
  | nil => rfl
  | cons entry entries ih =>
    rw [List.forall_mem_cons] at h
    have hsection : sectionOf (some decision) entry.bullet.toList = some decision := by
      rw [sectionOf, isHeader_bullet]
      rfl
    have hentry : entryOf? (some decision) entry.bullet.toList = readBack? entry := by
      rw [entryOf?, isHeader_bullet, readBack?, h.1]
      rfl
    rw [List.map_cons, entriesOfLines_cons, hsection, hentry, ih h.2, List.filterMap_cons]
    cases readBack? entry <;> rfl

theorem entriesOfLines_bullets (decision : Decision) (entries : List PreferenceEntry) :
    entriesOfLines (some decision) (bullets decision entries) =
      (decided decision entries).filterMap readBack? :=
  entriesOfLines_map_bullet fun entry hentry => by
    simpa [decided] using (List.mem_filter.mp hentry).2

/-- A layout is read bullet by bullet: the accepted entries first, then the rejected. -/
theorem entries_layout (all : List PreferenceEntry) :
    entries (layout all) = (filed all).filterMap readBack? := by
  have htop : ∀ rest, entriesOfLines none ("# Preferences".toList :: [] ::
      Decision.accepted.header.toList :: rest) = entriesOfLines (some .accepted) rest :=
    fun rest => rfl
  have hnext : ∀ rest, entriesOfLines (some .accepted) ([] :: Decision.rejected.header.toList ::
      rest) = entriesOfLines (some .rejected) rest := fun rest => rfl
  rw [entries, lines_layout, layoutRows, htop, entriesOfLines_append, sectionAfter_bullets, hnext,
    entriesOfLines_bullets, entriesOfLines_bullets, filed, List.filterMap_append]

/-- The entry's day has a year of four digits and its place can be seen. -/
structure Legible (entry : PreferenceEntry) : Prop where
  valid : entry.date.isValid = true
  year : 0 ≤ entry.date.year ∧ entry.date.year ≤ 9999
  place : isBlankText entry.location.toList = false

/-- What is found of an entry: all of it as its bullet says it, unless its place looks like one
that a reasoning follows. -/
structure Recalls (entry found : PreferenceEntry) : Prop where
  date : found.date = entry.date
  category : found.category = entry.category
  decision : found.decision = entry.decision
  subject : found.subject = PreferenceEntry.sanitize entry.subject
  whole : ¬ PreferenceEntry.reasoningMark <:+: oneLine entry.location.toList →
    found = written entry

theorem Legible.recalls {entry : PreferenceEntry} (h : Legible entry) :
    ∃ found, readBack? entry = some found ∧ Recalls entry found := by
  obtain ⟨found, hfound, hdate, hcategory, hdecision, hsubject⟩ :=
    ofBullet?_bullet h.valid h.year h.place
  refine ⟨found, hfound, hdate, hcategory, hdecision, hsubject, fun hmark => ?_⟩
  have hwhole := entries_singleton_eq_written h.valid h.year h.place hmark
  rw [entries_singleton, hfound] at hwhole
  exact List.singleton_inj.mp hwhole

theorem forall₂_recalls {all : List PreferenceEntry} (h : ∀ entry ∈ all, Legible entry) :
    List.Forall₂ Recalls all (all.filterMap readBack?) := by
  induction all with
  | nil => exact .nil
  | cons entry all ih =>
    rw [List.forall_mem_cons] at h
    obtain ⟨found, hfound, hrecalls⟩ := h.1.recalls
    rw [List.filterMap_cons_some hfound]
    exact .cons hrecalls (ih h.2)

theorem mem_of_mem_filed {all : List PreferenceEntry} {entry : PreferenceEntry}
    (h : entry ∈ filed all) : entry ∈ all := by
  rw [filed, List.mem_append] at h
  exact h.elim List.mem_of_mem_filter List.mem_of_mem_filter

end Scrutiny.PreferenceLog

namespace Scrutiny.PreferenceFile

open PreferenceLog

/-! ## 4. The file -/

/-- Adds entries to the log, one after the other. -/
def addAll (file : PreferenceFile) : List PreferenceEntry → TreeStep WriteError Unit
  | [] => pure ()
  | entry :: entries => do
      file.add entry
      addAll file entries

variable {file : PreferenceFile} {tree between : Tree} {names : List String} {text : String}

theorem exec_addAll_cons {entry : PreferenceEntry}
    (h : (file.add entry).exec tree = (.ok (), between)) (entries : List PreferenceEntry) :
    (file.addAll (entry :: entries)).exec tree = (file.addAll entries).exec between := by
  rw [addAll, TreeStep.exec_bind_of_ok h]

-- Where the log is, it can be written.
theorem exec_add_of_holds (h : tree.Holds file.path names text) (entry : PreferenceEntry) :
    ∃ after, (file.add entry).exec tree = (.ok (), after) ∧
      after.Holds file.path names (PreferenceLog.insert text entry) := by
  have hnames : tree.fileNames? file.path = some names :=
    Tree.fileNames?_eq_some.mpr ⟨_, h.place⟩
  refine ⟨tree.put names (.file (.text (PreferenceLog.insert text entry))), ?_, ?_⟩
  · rw [add, TreeStep.exec_get_bind, load_of_holds h,
      Tree.exec_saveText_of_fileNames? h.directory hnames]
  · have hput := Tree.Holds.put (Node.hasSlot_of_file h.at?)
      (PreferenceLog.insert text entry) h
    rwa [if_pos rfl] at hput

theorem exec_addAll_of_holds (h : tree.Holds file.path names text)
    (entries : List PreferenceEntry) :
    ∃ after, (file.addAll entries).exec tree = (.ok (), after) ∧
      after.Holds file.path names (entries.foldl PreferenceLog.insert text) := by
  induction entries generalizing tree text with
  | nil => exact ⟨tree, by rw [addAll, TreeStep.exec_pure], h⟩
  | cons entry entries ih =>
    obtain ⟨between, hadd, hbetween⟩ := exec_add_of_holds h entry
    obtain ⟨after, hall, hafter⟩ := ih hbetween
    rw [List.foldl_cons]
    exact ⟨after, by rw [exec_addAll_cons hadd, hall], hafter⟩

/-- A log that is missing or blank has the layout of the entries from the first that is added on.
Once that one could be added, so can all that follow.  Reading the log gives back the accepted
entries and then the rejected ones, both in the order in which they were added. -/
theorem text_addAll (hd : tree.HasDirectory) (hblank : isBlankText (file.load tree).toList = true)
    {first : PreferenceEntry} (hfirst : (file.add first).exec tree = (.ok (), between))
    (more : List PreferenceEntry) :
    ∃ after, (file.addAll (first :: more)).exec tree = (.ok (), after) ∧
      after.readText? file.path = some (layout (first :: more)) ∧
      ((∀ entry ∈ first :: more, Legible entry) →
        List.Forall₂ Recalls (filed (first :: more)) (file.entries after)) := by
  obtain ⟨names, hsaved⟩ := saved_of_add hd hfirst
  have hbetween := hsaved.holds
  rw [insert_of_blank hblank] at hbetween
  obtain ⟨after, hmore, hafter⟩ := exec_addAll_of_holds hbetween more
  rw [foldl_insert_layout, List.singleton_append] at hafter
  refine ⟨after, ?_, hafter.readText?, fun hlegible => ?_⟩
  · rw [exec_addAll_cons hfirst, hmore]
  · rw [entries_of_holds hafter, entries_layout]
    exact forall₂_recalls fun entry hentry => hlegible entry (mem_of_mem_filed hentry)

/-- A log of one blank line that gets a rejection and then an acceptance. -/
theorem text_addAll_flat :
    ∃ after : Tree,
      (PreferenceFile.addAll ⟨⟨"p.md"⟩⟩ [tricky, { folded with decision := .accepted }]).exec
        (.flat [("p.md", .file (.text "\n"))]) = (.ok (), after) ∧
      after.readText? ⟨"p.md"⟩ = some (layout [tricky, { folded with decision := .accepted }]) ∧
      List.Forall₂ Recalls [{ folded with decision := .accepted }, tricky]
        (PreferenceFile.entries ⟨⟨"p.md"⟩⟩ after) := by
  have hload : PreferenceFile.load ⟨⟨"p.md"⟩⟩ (.flat [("p.md", .file (.text "\n"))]) = "\n" :=
    load_of_holds (Tree.holds_flat (by decide) rfl)
  obtain ⟨after, hexec, htext, hentries⟩ := text_addAll (Tree.hasDirectory_flat _)
    (by rw [hload]; decide) (exec_add_flat "\n" tricky) [{ folded with decision := .accepted }]
  refine ⟨after, hexec, htext, hentries ?_⟩
  simp only [List.forall_mem_cons]
  exact ⟨⟨by decide, by decide, by decide⟩, ⟨by decide, by decide, by decide⟩, by simp⟩

end Scrutiny.PreferenceFile
