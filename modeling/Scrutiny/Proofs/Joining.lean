import Scrutiny.Proofs.Stripping

/-!
Paths put together and taken apart.  A joined path has the components of the one path and then those
of the other; the path above a file has all components of the file's but the last; and a name is
what its last dot parts.
-/

namespace Scrutiny.Path

/-! ## 1. A text and its components -/

/-- The components that the text between slashes stands for. -/
def named (text : List Char) : List Component :=
  (text.splitOn '/').filterMap componentOf

theorem named_slash (front back : List Char) :
    named (front ++ '/' :: back) = named front ++ named back := by
  rw [named, List.splitOn_append_cons_self, List.filterMap_append]
  rfl

theorem named_intercalate {segments : List (List Char)}
    (hslash : ∀ segment ∈ segments, '/' ∉ segment) :
    named (['/'].intercalate segments) = segments.filterMap componentOf := by
  rw [named]
  cases segments with
  | nil => rfl
  | cons segment segments => rw [List.splitOn_intercalate '/' hslash (by simp)]

/-- The lead adds nothing to what the whole text between slashes stands for. -/
theorem components_eq_named (path : Path) :
    path.components = path.leadComponents ++ named path.text.toList := by
  rw [components, segments, lead, Text.splitOn_eq_splitOn]
  refine congrArg _ ?_
  split
  next rest htext =>
    rw [htext]
    exact (named_slash [] rest).symm
  next htext =>
    rw [htext]
    rfl
  next rest htext =>
    rw [htext]
    exact (named_slash [] rest).trans (named_slash ['.'] rest).symm
  next => rfl

-- What follows changes the lead only if it goes on with the first segment.
theorem lead_of_append {base path : Path} {more : List Char}
    (hpath : path.text.toList = base.text.toList ++ more) (hne : base.text.toList ≠ [])
    (h : base.text.toList ≠ ['.'] ∨ ∃ rest, more = '/' :: rest) : path.lead = base.lead := by
  rw [lead, lead, hpath]
  generalize base.text.toList = front at hne h
  cases front with
  | nil => exact absurd rfl hne
  | cons c front =>
    by_cases hslash : c = '/'
    · rw [hslash]
      rfl
    · by_cases hdot : c = '.'
      · subst hdot
        cases front with
        | nil =>
          obtain ⟨rest, rfl⟩ := h.resolve_left (by simp)
          rfl
        | cons d rest =>
          by_cases hnext : d = '/'
          · rw [hnext]
            rfl
          · simp [hnext]
      · simp [hslash, hdot]

/-- One text goes on from another behind a slash. -/
def Extends (path base : Path) (rest : List Char) : Prop :=
  path.text.toList = base.text.toList ++ '/' :: rest ∨
    ∃ front, base.text.toList = front ++ ['/'] ∧ path.text.toList = front ++ '/' :: rest

theorem Extends.components {path base : Path} {rest : List Char} (h : path.Extends base rest)
    (hbase : base.text ≠ "") : path.components = base.components ++ named rest := by
  have hne : base.text.toList ≠ [] := fun heq => hbase (String.toList_eq_nil_iff.mp heq)
  have hlead : path.lead = base.lead := by
    rcases h with hpath | ⟨front, hfront, hpath⟩
    · exact lead_of_append hpath hne (.inr ⟨rest, rfl⟩)
    · rw [List.append_cons, ← hfront] at hpath
      refine lead_of_append hpath hne (.inl fun hdot => ?_)
      rw [hdot] at hfront
      cases front <;> simp at hfront
  have hnamed : named path.text.toList = named base.text.toList ++ named rest := by
    rcases h with hpath | ⟨front, hfront, hpath⟩
    · rw [hpath, named_slash]
    · rw [hpath, hfront, named_slash, named_slash]
      exact congrArg (· ++ _) (List.append_nil _).symm
  rw [components_eq_named, components_eq_named base, hnamed, leadComponents, leadComponents, hlead,
    List.append_assoc]

/-! ## 2. Joined paths -/

theorem components_join {base child : Path} (hchild : child.lead = []) :
    (base.join child).components = base.components ++ child.components := by
  have hrelative : child.isAbsolute = false := by
    rw [isAbsolute, hchild]
    rfl
  have hnamed : child.components = named child.text.toList := by
    rw [components_eq_named, leadComponents, hchild, List.nil_append]
  by_cases hbase : base.text = ""
  · have hjoin : base.join child = child := by
      rw [join, hrelative, hbase]
      rfl
    have hnone : base.components = [] := by
      rw [show base = ⟨""⟩ from congrArg Path.mk hbase]
      rfl
    rw [hjoin, hnone, List.nil_append]
  · rw [hnamed]
    exact Extends.components (toList_join hbase hrelative) hbase

/-! ## 3. The path above a file -/

-- The first segments of a path stand for its first components.
theorem components_of_segments {path : Path} {front back : List (List Char)}
    (h : path.segments = front ++ back) :
    path.components = (ofSegments path.lead front).components ++ back.filterMap componentOf := by
  by_cases hback : back = []
  · rw [hback, List.append_nil] at h
    rw [← h, ofSegments_segments, hback, List.filterMap_nil, List.append_nil]
  by_cases hfront : front = []
  · have hlead : (ofSegments path.lead []).components = path.leadComponents := by
      rw [leadComponents]
      rcases lead_cases path with hlead | hlead | ⟨hlead, -⟩ <;> rw [hlead] <;> rfl
    rw [components, h, hfront, hlead, List.nil_append]
  have hslash : ∀ segment ∈ back, '/' ∉ segment := fun segment hsegment =>
    slash_not_mem_segments path segment (h ▸ List.mem_append_right front hsegment)
  have htext : path.text.toList =
      (ofSegments path.lead front).text.toList ++ '/' :: ['/'].intercalate back := by
    have hwhole : path.text = (ofSegments path.lead (front ++ back)).text := by
      rw [← h, ofSegments_segments]
    rw [hwhole, ofSegments, ofSegments, String.toList_ofList, String.toList_ofList,
      intercalate_append hfront hback, List.append_assoc]
  rw [← named_intercalate hslash]
  refine Extends.components (.inl htext) fun hempty => ?_
  -- then the path would begin with the slash
  rw [hempty] at htext
  have hlead : path.lead = ['/'] := by
    rw [lead, htext]
    rfl
  rw [ofSegments, hlead] at hempty
  exact absurd (congrArg String.toList hempty) (by simp)

theorem exists_trivial_end (segments : List (List Char)) :
    ∃ blanks, segments = dropTrivialEnd segments ++ blanks ∧ blanks.filterMap componentOf = [] := by
  obtain ⟨blanks, hblanks⟩ := exists_dropTrivialEnd_append segments
  refine ⟨blanks, hblanks.symm, ?_⟩
  have hsame := filterMap_dropTrivialEnd segments
  rw [← congrArg (List.filterMap componentOf) hblanks, List.filterMap_append] at hsame
  exact List.self_eq_append_right.mp hsame

theorem exists_parent? {path : Path} {name : String} (h : path.fileName? = some name) :
    ∃ parent, path.parent? = some parent ∧
      path.components = parent.components ++ [.normal name] := by
  have hlast : path.components.getLast? = some (.normal name) := by
    unfold fileName? at h
    split at h
    next hlast => rwa [Option.some.inj h] at hlast
    next => exact absurd h (by simp)
  have hkept : dropTrivialEnd path.segments ≠ [] := by
    intro hnone
    have hsegments : path.segments.filterMap componentOf = [] := by
      rw [← filterMap_dropTrivialEnd, hnone, List.filterMap_nil]
    rw [components, hsegments, List.append_nil, leadComponents] at hlast
    rcases lead_cases path with hlead | hlead | ⟨hlead, -⟩ <;> rw [hlead] at hlast <;>
      exact absurd hlast (by simp)
  obtain ⟨front, segment, hfront, hsegment⟩ := exists_dropTrivialEnd_eq hkept
  obtain ⟨blanks, hblanks, hnone⟩ := exists_trivial_end front
  obtain ⟨ending, hending, hnone'⟩ := exists_trivial_end path.segments
  have hparent : path.parent? = some (ofSegments path.lead (dropTrivialEnd front)) := by
    rw [parent?]
    split
    next hnil => exact absurd hnil hkept
    next => rw [hfront, List.dropLast_concat]
  obtain ⟨component, hcomponent⟩ := exists_componentOf hsegment
  have hcomponents : path.components =
      (ofSegments path.lead (dropTrivialEnd front)).components ++ [component] := by
    have hsegments : path.segments = dropTrivialEnd front ++ (blanks ++ [segment] ++ ending) := by
      rw [← List.append_assoc, ← List.append_assoc, ← hblanks, ← hfront, ← hending]
    rw [components_of_segments hsegments, List.filterMap_append, List.filterMap_append, hnone,
      hnone', List.append_nil, List.nil_append, List.filterMap_cons, hcomponent]
    rfl
  rw [hcomponents, List.getLast?_concat, Option.some.injEq] at hlast
  exact ⟨_, hparent, hlast ▸ hcomponents⟩

/-! ## 4. Names -/

-- The last dot counts, unless it is the first character.
theorem splitExtension_dot {front tail : List Char} (htail : '.' ∉ tail) :
    splitExtension (front ++ '.' :: tail) =
      if front.isEmpty then ('.' :: tail, none) else (front, some tail) := by
  have hbehind : ((front ++ '.' :: tail).reverse.takeWhile (· != '.')).reverse = tail := by
    have hother : ∀ c ∈ tail.reverse, (c != '.') = true := by
      intro c hc
      rw [bne_iff_ne]
      rintro rfl
      exact htail (List.mem_reverse.mp hc)
    rw [List.reverse_append, List.reverse_cons, List.append_assoc,
      List.takeWhile_append_of_pos hother]
    simp
  have hfront : (front ++ '.' :: tail).take
      ((front ++ '.' :: tail).length - tail.length - 1) = front := by
    have hlength : front.length + (tail.length + 1) - tail.length - 1 = front.length := by omega
    rw [List.length_append, List.length_cons, hlength, List.take_left]
  have hlength : (tail.length == (front ++ '.' :: tail).length) = false := by
    rw [beq_eq_false_iff_ne, List.length_append, List.length_cons]
    omega
  unfold splitExtension
  rw [hbehind]
  dsimp only
  rw [hfront, hlength, Bool.false_or]
  cases front <;> rfl

theorem splitExtension_eq_some {name front tail : List Char} :
    splitExtension name = (front, some tail) ↔
      name = front ++ '.' :: tail ∧ front ≠ [] ∧ '.' ∉ tail := by
  constructor
  · intro h
    by_cases hdot : '.' ∈ name
    · obtain ⟨behind, before, hname, hbehind⟩ :=
        List.eq_append_cons_of_mem (List.mem_reverse.mpr hdot)
      have hbehind' : '.' ∉ behind.reverse := by rwa [List.mem_reverse]
      have hname' : name = before.reverse ++ '.' :: behind.reverse := by
        rw [← List.reverse_reverse name, hname]
        simp
      rw [hname', splitExtension_dot hbehind'] at h
      split at h
      · exact absurd h (by simp)
      next hne =>
        cases h
        exact ⟨hname', by simpa using hne, hbehind'⟩
    · have hall : name.reverse.takeWhile (· != '.') = name.reverse := by
        rw [List.takeWhile_eq_self_iff]
        intro c hc
        rw [bne_iff_ne]
        rintro rfl
        exact hdot (List.mem_reverse.mp hc)
      unfold splitExtension at h
      rw [hall, List.reverse_reverse] at h
      simp at h
  · rintro ⟨rfl, hfront, htail⟩
    rw [splitExtension_dot htail, if_neg (by simpa using hfront)]

theorem slash_not_mem_of_normal {path : Path} {name : String}
    (h : .normal name ∈ path.components) : '/' ∉ name.toList := by
  rw [components, List.mem_append, List.mem_filterMap] at h
  rcases h with hlead | ⟨segment, hsegment, hcomponent⟩
  · rw [leadComponents] at hlead
    split at hlead <;> simp at hlead
  · unfold componentOf at hcomponent
    split at hcomponent
    · exact absurd hcomponent (by simp)
    · split at hcomponent
      · exact absurd hcomponent (by simp)
      · cases hcomponent
        rw [String.toList_ofList]
        exact slash_not_mem_segments path segment hsegment

/-- A name of some length is a path of its own. -/
theorem of_name {name : String} (hslash : '/' ∉ name.toList) (hlength : 2 < name.toList.length) :
    (Path.mk name).lead = [] ∧ (Path.mk name).components = [.normal name] := by
  have htext : Path.mk name = ofSegments [] [name.toList] := by
    simp [ofSegments]
  have hother : ∀ segment : List Char, segment.length ≤ 2 → (name.toList == segment) = false := by
    intro segment hshort
    rw [beq_eq_false_iff_ne]
    rintro rfl
    omega
  have htrivial : isTrivial name.toList = false := by
    rw [isTrivial, hother [] (by decide), hother ['.'] (by decide), Bool.or_self]
  have hslashes : ∀ segment ∈ [name.toList], '/' ∉ segment := List.forall_mem_singleton.mpr hslash
  have hfirst : ∀ segment ∈ [name.toList].head?, isTrivial segment = false := by
    simpa using htrivial
  have hcomponent : componentOf name.toList = some (.normal name) := by
    rw [componentOf, if_neg (by simp [htrivial]), if_neg (by simp [hother ['.', '.'] (by decide)]),
      String.ofList_toList]
  refine ⟨htext ▸ lead_ofSegments hslashes hfirst, ?_⟩
  rw [htext, components_ofSegments hslashes hfirst, List.filterMap_cons, hcomponent]
  rfl

/-- A path with an extension has a name of a stem and the extension. -/
theorem exists_stem_of_extension? {path : Path} {extension : String}
    (h : path.extension? = some extension) :
    ∃ stem name, path.stem? = some stem ∧ path.fileName? = some name ∧
      name.toList = stem.toList ++ '.' :: extension.toList ∧ stem ≠ "" ∧
      '.' ∉ extension.toList := by
  unfold extension? at h
  unfold stem?
  obtain ⟨name, hname, hextension⟩ := Option.bind_eq_some_iff.mp h
  obtain ⟨tail, htail, rfl⟩ := Option.map_eq_some_iff.mp hextension
  have hsplit : splitExtension name.toList = ((splitExtension name.toList).1, some tail) :=
    Prod.ext rfl htail
  obtain ⟨hchars, hfront, hdot⟩ := splitExtension_eq_some.mp hsplit
  refine ⟨String.ofList (splitExtension name.toList).1, name, by rw [hname]; rfl, hname, ?_, ?_, ?_⟩
  · simpa using hchars
  · simpa using hfront
  · simpa using hdot

theorem extension?_of_fileName? {path : Path} {name : String} {front tail : List Char}
    (h : path.fileName? = some name) (hname : name.toList = front ++ '.' :: tail)
    (hfront : front ≠ []) (htail : '.' ∉ tail) : path.extension? = some (String.ofList tail) := by
  unfold extension?
  rw [h, Option.bind_some, splitExtension_eq_some.mpr ⟨hname, hfront, htail⟩]
  rfl

theorem fileName?_of_components {path : Path} {front : List Component} {name : String}
    (h : path.components = front ++ [.normal name]) : path.fileName? = some name := by
  unfold fileName?
  rw [h, List.getLast?_concat]

end Scrutiny.Path
