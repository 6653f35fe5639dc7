import Scrutiny.Proofs.Criticism
import Scrutiny.Proofs.Json.RoundTrip
import Scrutiny.Proofs.Time.Instant
import Scrutiny.Worklist.Basic

/-!
A worklist is read back from its text.  All instants of a worklist that was read are instants that
there are, and those are what reading gives back.
-/

namespace Scrutiny

/-! ## 1. Records -/

namespace Json

-- With distinct names, a name has the first member that bears it.
theorem named_of_nodup (name : String) {members : List (String × Json)}
    (h : (members.map Prod.fst).Nodup) :
    named name (members.map fun (name, value) => (some name, value)) =
      (members.lookup name).toList := by
  induction members with
  | nil => rfl
  | cons member members ih =>
    obtain ⟨key, value⟩ := member
    rw [List.map_cons, List.nodup_cons] at h
    have hrest := ih h.2
    rw [List.map_cons, List.lookup_cons]
    by_cases hkey : key = name
    · subst hkey
      have hnone : members.lookup key = none := by
        rw [List.lookup_eq_none_iff]
        intro member hmember
        rw [bne_iff_ne]
        rintro rfl
        exact h.1 (List.mem_map.mpr ⟨member, hmember, rfl⟩)
      rw [hnone] at hrest
      simpa [named] using hrest
    · have hname : (name == key) = false := beq_eq_false_iff_ne.mpr (Ne.symm hkey)
      rw [hname, ← hrest]
      simp [named, hkey]

/-- A record of distinct members is read by looking its fields up. -/
theorem record?_ofMembers (names : List String) {members : List (String × Json)}
    (h : (members.map Prod.fst).Nodup) :
    (ofMembers members).record? names = some (names.map fun name => members.lookup name) := by
  have hlength : ∀ name, (members.lookup name).toList.length ≤ 1 :=
    fun _ => Option.length_toList_le
  rw [ofMembers, record?, if_pos]
  · simp [named_of_nodup _ h]
  · simp [named_of_nodup _ h, hlength]

@[simp]
theorem isTextual_text (content : String) : isTextual (text content) = true := rfl

theorem nullable?_text {α : Type} (read : Json → Option α) (content : String) :
    nullable? read (text content) = (read (text content)).map some := rfl

theorem of_nullable?_eq_some {α : Type} {read : Json → Option α} {value : Json} {a : α}
    (h : nullable? read value = some (some a)) : read value = some a := by
  cases value with
  | null => exact absurd h (by simp [nullable?])
  | _ => simpa [nullable?] using h

theorem areTextual_eq_true {items : List Json} :
    areTextual items = true ↔ ∀ item ∈ items, isTextual item = true := by
  induction items with
  | nil => simp [areTextual]
  | cons item items ih => rw [areTextual, Bool.and_eq_true, ih, List.forall_mem_cons]

end Json

/-! ## 2. Criticisms -/

namespace Criticism

theorem list?_files (files : List Path) :
    Json.list? pathOfJson? (.array (files.map fun file => .text file.text)) = some files := by
  rw [Json.list?]
  induction files with
  | nil => rfl
  | cons file files ih =>
    rw [List.map_cons, List.mapM_cons, ih]
    rfl

-- The values of a written record's fields, in order.
theorem record?_toJson (criticism : Criticism) :
    criticism.toJson.record? fieldNames = some
      [some (.text criticism.id), some (.text criticism.category.label),
        some (.text criticism.subject), some (.text criticism.description),
        some (.array (criticism.files.map fun file => .text file.text)),
        criticism.location.map Json.text, some (.text criticism.severity.label),
        some (.text criticism.status.label), some (.text criticism.createdAt.text),
        criticism.reasoning.map Json.text] := by
  rw [toJson, Json.record?_ofMembers]
  · cases criticism.location <;> cases criticism.reasoning <;>
      simp only [fieldNames, optionalField, List.cons_append, List.nil_append, List.append_nil,
        List.map_cons, List.map_nil, List.lookup_cons, List.lookup_nil, beq_self_eq_true,
        String.reduceBEq, Option.map_some, Option.map_none]
  · cases criticism.location <;> cases criticism.reasoning <;>
      simp [optionalField]

theorem instantOfJson?_text {instant : Instant} (h : instant.isValid = true) :
    instantOfJson? (.text instant.text) = some instant := by
  have hparse := Instant.parse?_text h
  rw [instantOfJson?, Json.text, Json.string?, Option.bind_some, hparse]

theorem nullable?_map_text (text : Option String) :
    Json.defaulted? none (Json.nullable? Json.string?) (text.map Json.text) = some text := by
  cases text <;> rfl

theorem ofJson?_toJson {criticism : Criticism} (h : criticism.createdAt.isValid = true) :
    ofJson? criticism.toJson = some criticism := by
  rw [ofJson?, record?_toJson]
  simp only [Option.bind_eq_bind, Option.bind_some, nullable?_map_text, Json.required?,
    list?_files, instantOfJson?_text h]
  simp [Json.defaulted?, Json.text, Json.string?, Json.label?, statusOfJson?,
    Category.ofLabel?_label, Severity.ofLabel?_label, Status.ofLabel?_label]

theorem isTextual_toJson (criticism : Criticism) : criticism.toJson.isTextual = true := by
  have hfiles : Json.areTextual (criticism.files.map fun file => .text file.text) = true := by
    rw [Json.areTextual_eq_true, List.forall_mem_map]
    exact fun _ _ => rfl
  unfold toJson
  cases criticism.location <;> cases criticism.reasoning <;>
    simp [optionalField, Json.ofMembers, Json.isTextual.eq_6, Json.isTextual.eq_5,
      Json.membersTextual, hfiles]

-- Every instant that was read is one that there is.
theorem isValid_of_instantOfJson? {value : Json} {instant : Instant}
    (h : instantOfJson? value = some instant) : instant.isValid = true := by
  rw [instantOfJson?, Option.bind_eq_some_iff] at h
  obtain ⟨text, -, hparse⟩ := h
  exact Instant.isValid_of_parse? hparse

theorem isValid_of_ofJson? {value : Json} {criticism : Criticism}
    (h : ofJson? value = some criticism) : criticism.createdAt.isValid = true := by
  rw [ofJson?] at h
  obtain ⟨fields, -, h⟩ := Option.bind_eq_some_iff.mp h
  split at h
  next id category subject description files location severity status createdAt reasoning =>
    -- the time of creation is the ninth field
    simp only [Option.bind_eq_bind, Option.bind_eq_some_iff] at h
    obtain ⟨_, -, _, -, _, -, _, -, _, -, _, -, _, -, _, -, instant, hinstant, _, -, h⟩ := h
    have hcreated : instant = criticism.createdAt :=
      congrArg Criticism.createdAt (Option.some.inj h)
    cases createdAt with
    | none => exact absurd hinstant (by simp [Json.required?])
    | some value => exact hcreated ▸ isValid_of_instantOfJson? hinstant
  next => exact absurd h (by simp)

end Criticism

/-! ## 3. Documents -/

namespace Worklist

/-- All instants of the worklist are instants that there are. -/
structure IsDated (worklist : Worklist) : Prop where
  criticisms : ∀ criticism ∈ worklist.criticisms, criticism.createdAt.isValid = true
  lastAnalysis : ∀ instant ∈ worklist.lastAnalysis, instant.isValid = true

theorem isDated_empty : empty.IsDated :=
  ⟨by simp [empty], by simp [empty]⟩

theorem list?_toJson {criticisms : List Criticism}
    (h : ∀ criticism ∈ criticisms, criticism.createdAt.isValid = true) :
    Json.list? Criticism.ofJson? (.array (criticisms.map Criticism.toJson)) = some criticisms := by
  rw [Json.list?]
  induction criticisms with
  | nil => rfl
  | cons criticism criticisms ih =>
    rw [List.forall_mem_cons] at h
    rw [List.map_cons, List.mapM_cons, Criticism.ofJson?_toJson h.1, ih h.2]
    rfl

theorem isTextual_toJson (worklist : Worklist) : worklist.toJson.isTextual = true := by
  have hrecords : Json.areTextual (worklist.criticisms.map Criticism.toJson) = true := by
    rw [Json.areTextual_eq_true, List.forall_mem_map]
    exact fun criticism _ => Criticism.isTextual_toJson criticism
  unfold toJson
  cases worklist.lastAnalysis <;>
    simp [Json.ofMembers, Json.isTextual.eq_6, Json.isTextual.eq_5, Json.membersTextual, hrecords,
      Json.isTextual.eq_1]

/-- A worklist is read back from its file's text. -/
theorem parse?_text {worklist : Worklist} (h : worklist.IsDated) :
    parse? (worklist.text ++ "\n") = some worklist := by
  have hinstant : Json.nullable? Criticism.instantOfJson?
      ((worklist.lastAnalysis.map fun instant => Json.text instant.text).getD .null) =
        some worklist.lastAnalysis := by
    cases hlast : worklist.lastAnalysis with
    | none => rfl
    | some instant =>
      have hvalid := h.lastAnalysis instant hlast
      rw [Option.map_some, Option.getD_some, Json.nullable?_text,
        Criticism.instantOfJson?_text hvalid, Option.map_some]
  have hrecord : worklist.toJson.record? ["criticisms", "lastAnalysis"] = some
      [some (.array (worklist.criticisms.map Criticism.toJson)),
        some ((worklist.lastAnalysis.map fun instant => Json.text instant.text).getD .null)] := by
    rw [toJson, Json.record?_ofMembers _ (by simp)]
    simp [List.lookup_cons]
  rw [parse?, text, Json.parse?_pretty (isTextual_toJson worklist), Option.bind_some, ofJson?,
    hrecord]
  simp only [Option.bind_eq_bind, Option.bind_some, Json.defaulted?, hinstant,
    list?_toJson h.criticisms, Option.pure_def]

theorem mapM_forall {read : Json → Option Criticism} {items : List Json}
    {criticisms : List Criticism} {P : Criticism → Prop}
    (hread : ∀ item criticism, read item = some criticism → P criticism)
    (h : items.mapM read = some criticisms) : ∀ criticism ∈ criticisms, P criticism := by
  induction items generalizing criticisms with
  | nil =>
    rw [List.mapM_nil] at h
    have hnil : [] = criticisms := Option.some.inj h
    simp [← hnil]
  | cons item items ih =>
    rw [List.mapM_cons] at h
    obtain ⟨criticism, hcriticism, h⟩ := Option.bind_eq_some_iff.mp h
    obtain ⟨rest, hrest, h⟩ := Option.bind_eq_some_iff.mp h
    have hcons : criticism :: rest = criticisms := Option.some.inj h
    rw [← hcons, List.forall_mem_cons]
    exact ⟨hread _ _ hcriticism, ih hrest⟩

theorem isDated_of_parse? {text : String} {worklist : Worklist}
    (h : parse? text = some worklist) : worklist.IsDated := by
  rw [parse?] at h
  obtain ⟨value, -, h⟩ := Option.bind_eq_some_iff.mp h
  rw [ofJson?] at h
  obtain ⟨fields, -, h⟩ := Option.bind_eq_some_iff.mp h
  split at h
  next criticisms lastAnalysis =>
    obtain ⟨records, hrecords, h⟩ := Option.bind_eq_some_iff.mp h
    obtain ⟨instant, hinstant, h⟩ := Option.bind_eq_some_iff.mp h
    have hworklist : (⟨records, instant⟩ : Worklist) = worklist := Option.some.inj h
    subst hworklist
    refine ⟨?_, ?_⟩
    · cases criticisms with
      | none =>
        have hnil : [] = records := Option.some.inj hrecords
        simp [← hnil]
      | some value =>
        rw [Json.defaulted?] at hrecords
        cases value with
        | array items => exact mapM_forall (fun _ _ => Criticism.isValid_of_ofJson?) hrecords
        | _ => exact absurd hrecords (by simp [Json.list?])
    · intro last hlast
      have hlast : instant = some last := hlast
      subst hlast
      cases lastAnalysis with
      | none => exact absurd hinstant (by simp [Json.defaulted?])
      | some value =>
        rw [Json.defaulted?] at hinstant
        exact Criticism.isValid_of_instantOfJson? (Json.of_nullable?_eq_some hinstant)
  next => exact absurd h (by simp)

end Worklist

end Scrutiny
