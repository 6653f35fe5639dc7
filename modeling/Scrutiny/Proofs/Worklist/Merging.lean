import Scrutiny.Proofs.Worklist.History

/-!
Adding many records at once.  As long as no identity is there twice, the order in which they are
added shows at the end of the worklist only: records that are made again are refreshed where they
are, and the new ones come after them as they were given.  Findings that are made once more change
nothing.
-/

namespace Scrutiny.Worklist

/-! ## 1. Merging -/

/-- What becomes of a record when others are added. -/
def refreshedBy (records : List Criticism) (old : Criticism) : Criticism :=
  match records.find? fun new => new.id == old.id with
  | some new => refresh new old
  | none => old

/-- The worklist with each record refreshed by the one of its identity, and then the records whose
identities are new. -/
def merged (worklist : Worklist) (records : List Criticism) : Worklist :=
  { worklist with
    criticisms := worklist.criticisms.map (refreshedBy records) ++
      records.filter fun new => !worklist.contains new.id }

theorem refreshedBy_cons_of_ne {new old : Criticism} {records : List Criticism}
    (h : new.id ≠ old.id) : refreshedBy (new :: records) old = refreshedBy records old := by
  rw [refreshedBy, List.find?_cons_of_neg (by simpa using h), refreshedBy]

theorem refreshedBy_of_not_mem {old : Criticism} {records : List Criticism}
    (h : old.id ∉ records.map Criticism.id) : refreshedBy records old = old := by
  have hnone : (records.find? fun new => new.id == old.id) = none := by
    rw [List.find?_eq_none]
    intro new hnew hid
    exact h (List.mem_map.mpr ⟨new, hnew, by simpa using hid⟩)
  rw [refreshedBy, hnone]

-- With no identity twice, the first record with an identity is the only one.
theorem changeFirst_eq_map {id : String} {change : Criticism → Criticism}
    {criticisms : List Criticism} (h : (criticisms.map Criticism.id).Nodup) :
    changeFirst (fun old => old.id == id) change criticisms =
      criticisms.map fun old => if old.id = id then change old else old := by
  induction criticisms with
  | nil => rfl
  | cons criticism rest ih =>
    rw [List.map_cons, List.nodup_cons] at h
    rw [changeFirst, List.map_cons]
    by_cases hid : criticism.id = id
    · have hrest : ∀ old ∈ rest, (if old.id = id then change old else old) = old := by
        intro old hold
        refine if_neg fun hsame => h.1 ?_
        rw [hid, ← hsame]
        exact List.mem_map_of_mem hold
      rw [if_pos (by simpa using hid), if_pos hid, List.map_congr_left hrest, List.map_id']
    · rw [if_neg (by simpa using hid), if_neg hid, ih h.2]

/-- Adding a record adds its identity, unless it is there. -/
theorem ids_insert (worklist : Worklist) (criticism : Criticism) :
    (worklist.insert criticism).ids =
      if worklist.contains criticism.id then worklist.ids else worklist.ids ++ [criticism.id] := by
  rw [insert]
  by_cases hcontains : worklist.contains criticism.id = true
  · rw [if_pos hcontains, if_pos hcontains]
    exact map_changeFirst _ _ Criticism.id fun old _ hold => (beq_iff_eq.mp hold).symm
  · rw [if_neg hcontains, if_neg hcontains, ids, List.map_append]
    rfl

theorem contains_insert (worklist : Worklist) (criticism : Criticism) (id : String) :
    (worklist.insert criticism).contains id = (worklist.contains id || criticism.id == id) := by
  rw [Bool.eq_iff_iff, Bool.or_eq_true, beq_iff_eq, contains_eq_true, contains_eq_true, ids_insert]
  by_cases hcontains : worklist.contains criticism.id = true
  · rw [if_pos hcontains]
    rw [contains_eq_true] at hcontains
    exact ⟨Or.inl, fun h => h.elim (fun hmem => hmem) fun hid => hid ▸ hcontains⟩
  · rw [if_neg hcontains, List.mem_append, List.mem_singleton, eq_comm (a := id)]

theorem nodup_insert {worklist : Worklist} (hnodup : worklist.ids.Nodup) (criticism : Criticism) :
    (worklist.insert criticism).ids.Nodup := by
  rw [ids_insert]
  by_cases hcontains : worklist.contains criticism.id = true
  · rwa [if_pos hcontains]
  · rw [if_neg hcontains, ← List.concat_eq_append]
    exact List.Nodup.concat (fun hmem => hcontains (contains_eq_true.mpr hmem)) hnodup

-- Which of the other records are new does not depend on one that is added before them.
theorem filter_contains_insert {worklist : Worklist} {new : Criticism} {records : List Criticism}
    (hnew : new.id ∉ records.map Criticism.id) :
    (records.filter fun other => !(worklist.insert new).contains other.id) =
      records.filter fun other => !worklist.contains other.id := by
  refine List.filter_congr fun other hother => ?_
  have hne : (new.id == other.id) = false := by
    rw [beq_eq_false_iff_ne]
    exact fun hid => hnew (hid ▸ List.mem_map_of_mem hother)
  rw [contains_insert, hne, Bool.or_false]

-- Merging one record more than a list of others comes to adding it first.
theorem merged_insert {worklist : Worklist} (hnodup : worklist.ids.Nodup) {new : Criticism}
    {records : List Criticism} (hnew : new.id ∉ records.map Criticism.id) :
    (worklist.insert new).merged records = worklist.merged (new :: records) := by
  rw [merged, merged, filter_contains_insert hnew, insert]
  by_cases hcontains : worklist.contains new.id = true
  · rw [if_pos hcontains, List.filter_cons_of_neg (by simpa using hcontains)]
    dsimp only
    rw [changeFirst_eq_map hnodup, List.map_map]
    refine congrArg (fun front => Worklist.mk (front ++ _) _) (List.map_congr_left fun old _ => ?_)
    rw [Function.comp_apply]
    by_cases hid : old.id = new.id
    · have hrefresh : (refresh new old).id ∉ records.map Criticism.id := hnew
      rw [if_pos hid, refreshedBy_of_not_mem hrefresh, refreshedBy,
        List.find?_cons_of_pos (by simp [hid])]
    · rw [if_neg hid, refreshedBy_cons_of_ne (Ne.symm hid)]
  · rw [if_neg hcontains, List.filter_cons_of_pos (by simpa using hcontains)]
    dsimp only
    rw [List.map_append, List.map_singleton, refreshedBy_of_not_mem hnew, List.append_assoc]
    refine congrArg (fun front => Worklist.mk (front ++ _) _)
      (List.map_congr_left fun old hold => ?_)
    refine (refreshedBy_cons_of_ne fun hid => hcontains ?_).symm
    rw [contains_eq_true, hid]
    exact List.mem_map_of_mem hold

/-- Adding records of different identities merges them. -/
theorem insertAll_eq_merged {worklist : Worklist} (hnodup : worklist.ids.Nodup)
    {records : List Criticism} (hrecords : (records.map Criticism.id).Nodup) :
    worklist.insertAll records = worklist.merged records := by
  induction records generalizing worklist with
  | nil =>
    have hsame : ∀ old ∈ worklist.criticisms, refreshedBy [] old = old := fun _ _ => rfl
    rw [merged, List.map_congr_left hsame, List.map_id', List.filter_nil, List.append_nil]
    rfl
  | cons new records ih =>
    rw [List.map_cons, List.nodup_cons] at hrecords
    rw [← merged_insert hnodup hrecords.1]
    exact ih (nodup_insert hnodup new) hrecords.2

/-- The records that are new are those whose identities were not there. -/
theorem countNew_eq_length {worklist : Worklist} {records : List Criticism}
    (hrecords : (records.map Criticism.id).Nodup) :
    worklist.countNew records =
      (records.filter fun new => !worklist.contains new.id).length := by
  induction records generalizing worklist with
  | nil => rfl
  | cons new records ih =>
    rw [List.map_cons, List.nodup_cons] at hrecords
    rw [countNew, ih hrecords.2, filter_contains_insert hrecords.1, List.filter_cons]
    cases worklist.contains new.id
    · simp [Nat.add_comm]
    · simp

/-! ## 2. Adding again -/

theorem find?_changeFirst {holds : Criticism → Bool} {change : Criticism → Criticism}
    {criticisms : List Criticism} {old : Criticism}
    (hold : criticisms.find? holds = some old) (hchange : holds (change old) = true) :
    (changeFirst holds change criticisms).find? holds = some (change old) := by
  induction criticisms with
  | nil => simp at hold
  | cons criticism rest ih =>
    rw [changeFirst]
    by_cases hholds : holds criticism = true
    · rw [List.find?_cons_of_pos hholds, Option.some.injEq] at hold
      subst hold
      rw [if_pos hholds, List.find?_cons_of_pos hchange]
    · rw [List.find?_cons_of_neg hholds] at hold
      rw [if_neg hholds, List.find?_cons_of_neg hholds, ih hold]

-- A change that changes nothing of the first record that it would change.
theorem changeFirst_of_find? {holds : Criticism → Bool} {change : Criticism → Criticism}
    {criticisms : List Criticism} {old : Criticism}
    (hold : criticisms.find? holds = some old) (hchange : change old = old) :
    changeFirst holds change criticisms = criticisms := by
  induction criticisms with
  | nil => rfl
  | cons criticism rest ih =>
    rw [changeFirst]
    by_cases hholds : holds criticism = true
    · rw [List.find?_cons_of_pos hholds, Option.some.injEq] at hold
      rw [if_pos hholds, hold, hchange]
    · rw [List.find?_cons_of_neg hholds] at hold
      rw [if_neg hholds, ih hold]

/-- The worklist has the record's finding as it is: refreshing it changes nothing. -/
def IsSettled (worklist : Worklist) (record : Criticism) : Prop :=
  ∃ old, worklist.get? record.id = some old ∧ refresh record old = old

theorem IsSettled.contains {worklist : Worklist} {record : Criticism}
    (h : worklist.IsSettled record) : worklist.contains record.id = true := by
  obtain ⟨old, hold, -⟩ := h
  rw [Worklist.contains, hold]
  rfl

theorem IsSettled.insert_eq {worklist : Worklist} {record : Criticism}
    (h : worklist.IsSettled record) : worklist.insert record = worklist := by
  obtain ⟨old, hold, hrefresh⟩ := h
  rw [insert, if_pos (IsSettled.contains ⟨old, hold, hrefresh⟩), changeFirst_of_find? hold hrefresh]

theorem isSettled_insert (worklist : Worklist) (record : Criticism) :
    (worklist.insert record).IsSettled record := by
  rw [insert]
  cases hold : worklist.get? record.id with
  | none =>
    have hcontains : ¬ worklist.contains record.id = true := by simp [Worklist.contains, hold]
    rw [if_neg hcontains]
    refine ⟨record, ?_, rfl⟩
    rw [get?] at hold
    simp [get?, List.find?_append, hold]
  | some old =>
    have hcontains : worklist.contains record.id = true := by simp [Worklist.contains, hold]
    rw [if_pos hcontains]
    exact ⟨refresh record old, find?_changeFirst hold (beq_self_eq_true record.id), rfl⟩

-- What is looked up is no record that is changed.
theorem find?_changeFirst_of_not {holds other : Criticism → Bool} {change : Criticism → Criticism}
    (h : ∀ old, holds old = true → other old = false ∧ other (change old) = false)
    (criticisms : List Criticism) :
    (changeFirst holds change criticisms).find? other = criticisms.find? other := by
  induction criticisms with
  | nil => rfl
  | cons criticism rest ih =>
    rw [changeFirst]
    by_cases hholds : holds criticism = true
    · obtain ⟨hold, hnew⟩ := h criticism hholds
      rw [if_pos hholds, List.find?_cons_of_neg (by simp [hnew]),
        List.find?_cons_of_neg (by simp [hold])]
    · rw [if_neg hholds, List.find?_cons, List.find?_cons, ih]

theorem get?_insert_of_ne {worklist : Worklist} {record : Criticism} {id : String}
    (h : record.id ≠ id) : (worklist.insert record).get? id = worklist.get? id := by
  rw [insert]
  split
  · refine find?_changeFirst_of_not (fun old hold => ?_) worklist.criticisms
    rw [beq_iff_eq] at hold
    exact ⟨beq_eq_false_iff_ne.mpr (hold ▸ h), beq_eq_false_iff_ne.mpr h⟩
  · simp [get?, List.find?_append, h]

theorem IsSettled.insert {worklist : Worklist} {record other : Criticism}
    (h : worklist.IsSettled record) (hne : other.id ≠ record.id) :
    (worklist.insert other).IsSettled record := by
  obtain ⟨old, hold, hrefresh⟩ := h
  exact ⟨old, by rw [get?_insert_of_ne hne, hold], hrefresh⟩

theorem IsSettled.insertAll {worklist : Worklist} {record : Criticism} {records : List Criticism}
    (h : worklist.IsSettled record) (hnew : record.id ∉ records.map Criticism.id) :
    (worklist.insertAll records).IsSettled record := by
  induction records generalizing worklist with
  | nil => exact h
  | cons other records ih =>
    rw [List.map_cons, List.mem_cons, not_or] at hnew
    exact ih (h.insert (Ne.symm hnew.1)) hnew.2

/-- Records of different identities are settled once they were added. -/
theorem isSettled_insertAll (worklist : Worklist) {records : List Criticism}
    (hrecords : (records.map Criticism.id).Nodup) :
    ∀ record ∈ records, (worklist.insertAll records).IsSettled record := by
  induction records generalizing worklist with
  | nil => simp
  | cons new records ih =>
    rw [List.map_cons, List.nodup_cons] at hrecords
    rw [List.forall_mem_cons]
    exact ⟨(isSettled_insert worklist new).insertAll hrecords.1,
      ih (worklist.insert new) hrecords.2⟩

/-- Adding settled records changes nothing, and none of them is new. -/
theorem insertAll_of_isSettled {worklist : Worklist} {records : List Criticism}
    (h : ∀ record ∈ records, worklist.IsSettled record) :
    worklist.insertAll records = worklist ∧ worklist.countNew records = 0 := by
  induction records with
  | nil => exact ⟨rfl, rfl⟩
  | cons record records ih =>
    rw [List.forall_mem_cons] at h
    obtain ⟨hinsert, hcount⟩ := ih h.2
    refine ⟨?_, ?_⟩
    · rw [insertAll, List.foldl_cons, h.1.insert_eq]
      exact hinsert
    · rw [countNew, h.1.insert_eq, hcount, if_pos h.1.contains]

/-- Findings that are made again change nothing, whenever that is and whatever else is noted. -/
theorem insertAll_record_again {worklist : Worklist} {findings : List Finding}
    (hnodup : (findings.map Finding.id).Nodup) (now later : Instant) :
    let noted := (worklist.insertAll (findings.map fun finding => finding.record now)).stamp now
    let again := findings.map fun finding => finding.record later
    noted.insertAll again = noted ∧ noted.countNew again = 0 := by
  intro noted again
  refine insertAll_of_isSettled ?_
  rw [List.forall_mem_map]
  intro finding hfinding
  have hids : ((findings.map fun finding => finding.record now).map Criticism.id).Nodup := by
    rw [List.map_map]
    exact hnodup
  obtain ⟨old, hold, hrefresh⟩ := isSettled_insertAll worklist hids (finding.record now)
    (List.mem_map_of_mem (f := fun finding => finding.record now) hfinding)
  -- a record of the same finding differs in its time only, which refreshing does not look at
  exact ⟨old, hold, hrefresh⟩

end Scrutiny.Worklist
