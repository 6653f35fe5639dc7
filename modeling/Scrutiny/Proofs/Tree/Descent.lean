import Mathlib.Data.List.DropRight
import Scrutiny.Proofs.Text.Lines
import Scrutiny.Proofs.Tree.Resolution
import Scrutiny.Tree.Walk

/-!
Paths one step after the other.  A path that leads somewhere leads to a directory wherever it goes
on from, so the path above a file leads to a directory, and names joined to a path that leads to a
directory lead on from there.
-/

namespace Scrutiny

namespace Tree

/-! ## 1. Steps one behind the other -/

section Steps

variable {tree : Tree} {links : Nat} {trail : Trail} {front back : List Step}

/-- Steps that lead to a node lead on from there, with the links that are left. -/
theorem exists_resolve_append {names : List String} {node : Node} (htrail : tree.Leads trail)
    (h : tree.resolve true links trail front = .ok (.found names node)) :
    ∃ links' trail', tree.Leads trail' ∧ Trail.names trail' = names ∧ tree.nodeOn trail' = node ∧
      ∀ back, tree.resolve true links trail (front ++ back) =
        tree.resolve true links' trail' back := by
  fun_induction tree.resolve true links trail front with
  | case1 links trail =>
    rw [Except.ok.injEq, Place.found.injEq] at h
    exact ⟨links, trail, htrail, h.1, h.2, fun _ => rfl⟩
  | case2 _ _ _ _ hdir ih =>
    obtain ⟨links', trail', hleads, hnames, hnode, hback⟩ := ih htrail h
    exact ⟨links', trail', hleads, hnames, hnode, fun back => by
      rw [List.cons_append, resolve_stay hdir, hback]⟩
  | case3 _ _ _ _ hdir ih =>
    obtain ⟨links', trail', hleads, hnames, hnode, hback⟩ := ih htrail.tail h
    exact ⟨links', trail', hleads, hnames, hnode, fun back => by
      rw [List.cons_append, resolve_up hdir, hback]⟩
  -- a link, whose steps come in front of the rest
  | case9 trail rest _ hdir name hname target hentry _ _ start ih =>
    have hstart : tree.Leads start := by
      dsimp only [start]
      split
      · trivial
      · exact htrail
    obtain ⟨links', trail', hleads, hnames, hnode, hback⟩ := ih hstart h
    refine ⟨links', trail', hleads, hnames, hnode, fun back => ?_⟩
    rw [List.cons_append, resolve_enter_link hdir hname hentry (by simp), ← List.append_assoc]
    exact hback back
  | case10 _ _ _ _ hdir name hname node hnode hentry ih =>
    obtain ⟨links', trail', hleads, hnames, hend, hback⟩ :=
      ih ⟨by rw [hdir]; exact hentry, htrail⟩ h
    exact ⟨links', trail', hleads, hnames, hend, fun back => by
      rw [List.cons_append, resolve_enter_node hdir hname hentry hnode, hback]⟩
  | case5 => simp at h
  | case7 _ _ _ _ _ _ _ _ _ hlast => simp at hlast
  | case4 | case6 | case8 | case11 => exact absurd h (by simp)

/-- Where more steps lead somewhere, the steps before them lead to a directory. -/
theorem resolve_of_append (htrail : tree.Leads trail) (hback : back ≠ []) {place : Place}
    (h : tree.resolve true links trail (front ++ back) = .ok place) :
    ∃ names entries, tree.resolve true links trail front = .ok (.found names (.dir entries)) := by
  fun_induction tree.resolve true links trail front with
  | case1 links trail =>
    cases back with
    | nil => exact absurd rfl hback
    | cons step back =>
      cases hnode : tree.nodeOn trail with
      | dir entries => exact ⟨trail.names, entries, rfl⟩
      | file content =>
        rw [List.nil_append, resolve_of_not_dir (by simp [hnode])] at h
        exact absurd h (by simp)
      | link target =>
        rw [List.nil_append, resolve_of_not_dir (by simp [hnode])] at h
        exact absurd h (by simp)
  | case2 _ _ _ _ hdir ih => exact ih htrail (by rwa [List.cons_append, resolve_stay hdir] at h)
  | case3 _ _ _ _ hdir ih =>
    exact ih htrail.tail (by rwa [List.cons_append, resolve_up hdir] at h)
  | case4 _ _ _ _ hdir name hname =>
    rw [List.cons_append, resolve, hdir] at h
    simp [hname] at h
  -- nothing lies under a name that is free
  | case5 _ _ _ _ hdir name hname hentry | case6 _ _ _ _ hdir name hname hentry =>
    rw [List.cons_append, resolve_enter_free hdir hname hentry, if_neg (by simp [hback])] at h
    exact absurd h (by simp)
  | case7 _ _ _ _ _ _ _ _ _ hlast => simp at hlast
  | case8 _ _ _ hdir name hname target hentry =>
    rw [List.cons_append, resolve, hdir] at h
    simp [hname, hentry] at h
  | case9 trail rest _ hdir name hname target hentry _ _ start ih =>
    have hstart : tree.Leads start := by
      dsimp only [start]
      split
      · trivial
      · exact htrail
    rw [List.cons_append, resolve_enter_link hdir hname hentry (by simp), ← List.append_assoc] at h
    exact ih hstart h
  | case10 _ _ _ _ hdir name hname node hnode hentry ih =>
    rw [List.cons_append, resolve_enter_node hdir hname hentry hnode] at h
    exact ih ⟨by rw [hdir]; exact hentry, htrail⟩ h
  | case11 _ _ _ _ hdir =>
    rw [List.cons_append, resolve_of_not_dir hdir] at h
    exact absurd h (by simp)

end Steps

/-! ## 2. The steps of a text -/

theorem plainSteps_ofList (text : List Char) :
    plainSteps (String.ofList text) = (text.splitOn '/').filterMap Step.ofSegment := by
  rw [plainSteps, String.toList_ofList, Text.splitOn_eq_splitOn]

/-- A slash parts the steps before it from those behind it. -/
theorem plainSteps_slash (front back : List Char) :
    plainSteps (String.ofList (front ++ '/' :: back)) =
      plainSteps (String.ofList front) ++ plainSteps (String.ofList back) := by
  rw [plainSteps_ofList, List.splitOn_append_cons_self, List.filterMap_append, plainSteps_ofList,
    plainSteps_ofList]

theorem plainSteps_intercalate {segments : List (List Char)}
    (hsegments : ∀ segment ∈ segments, '/' ∉ segment) :
    plainSteps (String.ofList (['/'].intercalate segments)) =
      segments.filterMap Step.ofSegment := by
  rw [plainSteps_ofList]
  cases segments with
  | nil => rfl
  | cons segment segments => rw [List.splitOn_intercalate '/' hsegments (by simp)]

end Tree

/-! ## 3. The path above -/

namespace Path

theorem ofSegments_segments (path : Path) : ofSegments path.lead path.segments = path := by
  have hlead : path.lead ++ path.text.toList.drop path.lead.length = path.text.toList := by
    rw [lead]
    split <;> simp_all
  rw [ofSegments, segments, Text.splitOn_eq_splitOn, List.intercalate_splitOn, hlead,
    String.ofList_toList]

theorem slash_not_mem_segments (path : Path) : ∀ segment ∈ path.segments, '/' ∉ segment :=
  Text.not_mem_splitOn '/' _

theorem exists_dropTrivialEnd_append (segments : List (List Char)) :
    ∃ blanks, dropTrivialEnd segments ++ blanks = segments :=
  List.rdropWhile_prefix isTrivial segments

-- What is left ends with a segment that says something.
theorem exists_dropTrivialEnd_eq {segments : List (List Char)} (h : dropTrivialEnd segments ≠ []) :
    ∃ front segment, dropTrivialEnd segments = front ++ [segment] ∧ isTrivial segment = false :=
  ⟨_, _, (List.dropLast_append_getLast h).symm,
    eq_false_of_ne_true (List.rdropWhile_last_not isTrivial segments h)⟩

/-- The path above another has its first segments, and one that says something is not among
them. -/
theorem parent?_eq_some {path parent : Path} (h : path.parent? = some parent)
    (hparent : parent.text ≠ "") :
    ∃ front back, path.segments = front ++ back ∧ parent = ofSegments path.lead front ∧
      ∃ segment ∈ back, isTrivial segment = false := by
  rw [parent?] at h
  split at h
  next =>
    split at h
    · rw [Option.some.injEq] at h
      exact absurd (congrArg Path.text h).symm hparent
    · exact absurd h (by simp)
  next hne =>
    obtain ⟨front, segment, hfront, hsegment⟩ := exists_dropTrivialEnd_eq hne
    obtain ⟨blanks, hblanks⟩ := exists_dropTrivialEnd_append path.segments
    obtain ⟨more, hmore⟩ := exists_dropTrivialEnd_append front
    rw [Option.some.injEq, hfront, List.dropLast_concat] at h
    refine ⟨dropTrivialEnd front, more ++ segment :: blanks, ?_, h.symm, segment, by simp,
      hsegment⟩
    rw [← hblanks, hfront, List.append_assoc, List.singleton_append, ← List.append_assoc, hmore]

-- A segment that says something is a step, and so is the text that it stands in.
theorem plainSteps_ne_nil {segments : List (List Char)}
    (hslash : ∀ segment ∈ segments, '/' ∉ segment) {segment : List Char}
    (hmem : segment ∈ segments) (hsegment : isTrivial segment = false) :
    Tree.plainSteps (String.ofList (['/'].intercalate segments)) ≠ [] := by
  rw [Tree.plainSteps_intercalate hslash]
  obtain ⟨step, hstep⟩ : ∃ step, Tree.Step.ofSegment segment = some step := by
    rw [isTrivial, Bool.or_eq_false_iff] at hsegment
    unfold Tree.Step.ofSegment
    split
    · simp_all
    · split <;> [skip; split] <;> exact ⟨_, rfl⟩
  exact List.ne_nil_of_mem (List.mem_filterMap.mpr ⟨segment, hmem, hstep⟩)

theorem intercalate_append {front back : List (List Char)} (hfront : front ≠ [])
    (hback : back ≠ []) : ['/'].intercalate (front ++ back) =
      ['/'].intercalate front ++ '/' :: ['/'].intercalate back := by
  induction front with
  | nil => exact absurd rfl hfront
  | cons segment front ih =>
    cases front with
    | nil => rw [List.singleton_append, List.intercalate_cons_of_ne_nil hback]; simp
    | cons next front =>
      rw [List.cons_append, List.intercalate_cons_of_ne_nil (by simp), ih (by simp),
        List.intercalate_cons_cons]
      simp

-- Behind a leading `.` there is nothing, or a slash.
theorem lead_cases (path : Path) : path.lead = [] ∨ path.lead = ['/'] ∨
    path.lead = ['.'] ∧ ∃ segments, path.segments = [] :: segments := by
  rw [lead, segments, lead]
  split
  · exact Or.inr (Or.inl rfl)
  next htext => exact Or.inr (Or.inr ⟨rfl, [], by rw [htext]; rfl⟩)
  next htext => exact Or.inr (Or.inr ⟨rfl, _, by rw [htext]; rfl⟩)
  · exact Or.inl rfl

/-- A path has the steps of the path above it, and then some more. -/
theorem plainSteps_parent {path parent : Path} (h : path.parent? = some parent)
    (hparent : parent.text ≠ "") :
    ∃ rest tail, path.text = parent.text ++ rest ∧ tail ≠ [] ∧
      Tree.plainSteps path.text = Tree.plainSteps parent.text ++ tail := by
  obtain ⟨front, back, hsegments, rfl, segment, hmem, hsegment⟩ := parent?_eq_some h hparent
  have hslash : ∀ segment ∈ back, '/' ∉ segment := fun segment hsegment =>
    slash_not_mem_segments path segment (hsegments ▸ List.mem_append_right front hsegment)
  have htext : path.text = String.ofList (path.lead ++ ['/'].intercalate (front ++ back)) := by
    rw [← hsegments]
    exact congrArg Path.text (ofSegments_segments path).symm
  by_cases hfront : front = []
  · subst hfront
    rw [List.nil_append] at htext hsegments
    rcases lead_cases path with hlead | hlead | ⟨hlead, others, hothers⟩
    · exact absurd (by rw [ofSegments, hlead]; rfl) hparent
    · refine ⟨String.ofList (['/'].intercalate back), _, ?_,
        plainSteps_ne_nil hslash hmem hsegment, ?_⟩
      · rw [htext, ofSegments, hlead, ← String.ofList_append]
        rfl
      · rw [htext, ofSegments, hlead, List.singleton_append]
        exact Tree.plainSteps_slash [] _
    · -- the first segment is the empty one before the slash
      rw [hothers] at hsegments
      subst hsegments
      have hmem' : segment ∈ others := by
        rcases List.mem_cons.mp hmem with rfl | hmem'
        · exact absurd hsegment (by decide)
        · exact hmem'
      have hchars : path.text = String.ofList (['.'] ++ '/' :: ['/'].intercalate others) := by
        rw [htext, hlead, List.intercalate_cons_of_ne_nil (List.ne_nil_of_mem hmem')]
        rfl
      refine ⟨String.ofList ('/' :: ['/'].intercalate others), _, ?_,
        plainSteps_ne_nil (fun other hother => hslash other (List.mem_cons_of_mem _ hother)) hmem'
          hsegment, ?_⟩
      · rw [hchars, ofSegments, hlead, ← String.ofList_append]
        rfl
      · rw [hchars, ofSegments, hlead]
        exact Tree.plainSteps_slash ['.'] _
  · rw [intercalate_append hfront (List.ne_nil_of_mem hmem), ← List.append_assoc] at htext
    refine ⟨String.ofList ('/' :: ['/'].intercalate back), _, ?_,
      plainSteps_ne_nil hslash hmem hsegment, ?_⟩
    · rw [htext, ofSegments, ← String.ofList_append]
    · rw [htext, ofSegments]
      exact Tree.plainSteps_slash _ _

theorem isAbsolute_eq (path : Path) :
    path.isAbsolute = (path.text.toList.head? == some '/') := by
  unfold isAbsolute lead
  split
  next htext => simp [htext]
  next htext => simp [htext]
  next htext => simp [htext]
  next hroot _ _ =>
    cases htext : path.text.toList with
    | nil => rfl
    | cons c rest =>
      have hc : c ≠ '/' := fun hslash => hroot rest (hslash ▸ htext)
      simp [hc]

/-- Two paths are joined by a slash, which the first may end with already. -/
theorem toList_join {base child : Path} (hbase : base.text ≠ "")
    (hchild : child.isAbsolute = false) :
    (base.join child).text.toList = base.text.toList ++ '/' :: child.text.toList ∨
      ∃ front, base.text.toList = front ++ ['/'] ∧
        (base.join child).text.toList = front ++ '/' :: child.text.toList := by
  have hne : base.text.toList ≠ [] := fun heq => hbase (String.toList_eq_nil_iff.mp heq)
  rw [join, hchild, if_neg Bool.false_ne_true]
  split
  next hlast => exact absurd (List.getLast?_eq_none_iff.mp hlast) hne
  next hlast =>
    obtain ⟨front, hfront⟩ := List.getLast?_eq_some_iff.mp hlast
    exact Or.inr ⟨front, hfront, by simp [hfront]⟩
  next => exact Or.inl (by simp)

theorem isAbsolute_join {base child : Path} (hbase : base.text ≠ "")
    (hchild : child.isAbsolute = false) : (base.join child).isAbsolute = base.isAbsolute := by
  rw [isAbsolute_eq, isAbsolute_eq]
  rcases toList_join hbase hchild with hjoin | ⟨front, hfront, hjoin⟩
  · cases htext : base.text.toList with
    | nil => exact absurd (String.toList_eq_nil_iff.mp htext) hbase
    | cons c rest => rw [hjoin, htext]; rfl
  · rw [hjoin, hfront]
    cases front <;> rfl

theorem plainSteps_join {base child : Path} (hbase : base.text ≠ "")
    (hchild : child.isAbsolute = false) :
    Tree.plainSteps (base.join child).text =
      Tree.plainSteps base.text ++ Tree.plainSteps child.text := by
  rw [← String.ofList_toList (s := (base.join child).text),
    ← String.ofList_toList (s := base.text), ← String.ofList_toList (s := child.text)]
  rcases toList_join hbase hchild with hjoin | ⟨front, hfront, hjoin⟩
  · rw [hjoin, Tree.plainSteps_slash]
  · rw [hjoin, hfront, Tree.plainSteps_slash, Tree.plainSteps_slash]
    exact congrArg (· ++ _) (List.append_nil _).symm

end Path

namespace Tree

/-! ## 4. Directories that paths lead to -/

variable {tree : Tree} {path : Path} {names : List String} {entries : List (String × Node)}

/-- Whether a path leads to a directory does not depend on a slash at its end. -/
theorem place_eq_dir (hd : tree.HasDirectory) :
    tree.place true path = .ok (.found names (.dir entries)) ↔ flaw? path = none ∧
      tree.resolve true mostLinks (tree.start path) (plainSteps path.text) =
        .ok (.found names (.dir entries)) := by
  rw [place_eq_ok, and_congr_right_iff, stepsOf]
  intro _
  have hstart := leads_start hd path
  by_cases hslash : endsInSlash path.text = true
  · rw [if_pos hslash]
    -- a step that stays changes nothing at a directory
    have hstay : ∀ {others : List String} {inner : List (String × Node)},
        tree.resolve true mostLinks (tree.start path) (plainSteps path.text) =
          .ok (.found others (.dir inner)) →
        tree.resolve true mostLinks (tree.start path) (plainSteps path.text ++ [.stay]) =
          .ok (.found others (.dir inner)) := by
      intro others inner h
      obtain ⟨links, trail, -, rfl, hnode, hback⟩ := exists_resolve_append hstart h
      rw [hback, resolve_stay hnode, resolve_nil, hnode]
    refine ⟨fun h => ?_, hstay⟩
    obtain ⟨others, inner, hfront⟩ := resolve_of_append hstart (by simp) h
    rw [← h, hstay hfront, hfront]
  · rw [if_neg hslash, List.append_nil]

/-- The path above one that leads somewhere leads to a directory. -/
theorem isDir_of_parent? (hd : tree.HasDirectory) {place : Place}
    (hplace : tree.place true path = .ok place) {parent : Path}
    (hparent : path.parent? = some parent) (hne : parent.text ≠ "") :
    tree.isDir parent = true := by
  obtain ⟨hflaw, hresolve⟩ := place_eq_ok.mp hplace
  obtain ⟨rest, tail, htext, htail, hsteps⟩ := Path.plainSteps_parent hparent hne
  rw [stepsOf, hsteps, List.append_assoc] at hresolve
  obtain ⟨names, entries, hdir⟩ :=
    resolve_of_append (leads_start hd path) (by simp [htail]) hresolve
  have hstart : tree.start parent = tree.start path := by
    have habsolute : parent.isAbsolute = path.isAbsolute := by
      rw [Path.isAbsolute_eq, Path.isAbsolute_eq, htext, String.toList_append]
      cases hchars : parent.text.toList with
      | nil => exact absurd (String.toList_eq_nil_iff.mp hchars) hne
      | cons c chars => rfl
    rw [start, start, habsolute]
  -- what is wrong with the path above is wrong with the path
  have hparentFlaw : flaw? parent = none := by
    rw [flaw?, htext, String.toList_append, String.utf8ByteSize_append] at hflaw
    rw [flaw?]
    split at hflaw
    · exact absurd hflaw (by simp)
    next hnul =>
      split at hflaw
      · exact absurd hflaw (by simp)
      · split at hflaw
        · exact absurd hflaw (by simp)
        next hlong =>
          rw [if_neg (by simp_all), if_neg (by simpa using hne), if_neg (by omega)]
  rw [← hstart] at hdir
  rw [isDir, node?, (place_eq_dir hd).mpr ⟨hparentFlaw, hdir⟩]
  rfl

end Tree

end Scrutiny
