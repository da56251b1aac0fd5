import Mathlib.Logic.Relation
import ModularGrammar.Path
import ModularGrammar.Proofs.Segment

/-!
# Normal Paths

The normal form of a path is built segment by segment.  What has been built is always some `..`, as
far as the path is not absolute, and then names only, and one segment more either goes behind it,
changes nothing or takes the last name back.  So the normal form is what remains when segments that
change nothing are left out as long as there are any, and it does not matter in which order.

A path in normal form leads from every place to where the path itself leads, which is why joining
may normalize what it joins.

## Architecture

1. `IsName`, `IsNormal`: what has been built, and one segment more
2. `Collapses`: segments that change nothing, one step and a whole run
3. `walk`: where a path leads from a place, and where its normal form does
4. `isAbsolute_join`, `walk_join`: joined paths
5. `normalize_canonical`: the laws of normal forms
-/

namespace ModularGrammar.Path

/-! ## Segments of normal forms -/

/-- A segment that names something: it is not empty and neither `.` nor `..`. -/
def IsName (segment : String) : Prop := segment ≠ "" ∧ segment ≠ "." ∧ segment ≠ ".."

instance (segment : String) : Decidable (IsName segment) :=
  inferInstanceAs (Decidable (segment ≠ "" ∧ segment ≠ "." ∧ segment ≠ ".."))

/-- The segments of a normal form, in reverse: names, below a place that some `..` lead up to.
Nothing leads up from the root. -/
inductive IsNormal (absolute : Bool) : List String → Prop
  | above (levels : Nat) (hroot : absolute = true → levels = 0) :
      IsNormal absolute (List.replicate levels "..")
  | inside {before : List String} {name : String} (hbefore : IsNormal absolute before)
      (hname : IsName name) : IsNormal absolute (name :: before)

variable {absolute : Bool} {before : List String} {segment name path : String}

theorem isNormal_nil (absolute : Bool) : IsNormal absolute [] := .above 0 fun _ => rfl

theorem segment_cases (segment : String) :
    segment = "" ∨ segment = "." ∨ segment = ".." ∨ IsName segment := by
  by_cases hempty : segment = ""
  · exact Or.inl hempty
  by_cases hhere : segment = "."
  · exact Or.inr (Or.inl hhere)
  by_cases hback : segment = ".."
  · exact Or.inr (Or.inr (Or.inl hback))
  exact Or.inr (Or.inr (Or.inr ⟨hempty, hhere, hback⟩))

@[simp]
theorem pushSegment_empty : pushSegment absolute before "" = before := by simp [pushSegment]

@[simp]
theorem pushSegment_here : pushSegment absolute before "." = before := by simp [pushSegment]

theorem pushSegment_name (h : IsName name) : pushSegment absolute before name = name :: before := by
  obtain ⟨hempty, hhere, hback⟩ := h
  simp [pushSegment, hempty, hhere, hback]

/-- `..` takes a name back. -/
theorem pushSegment_back (h : IsName name) :
    pushSegment absolute (name :: before) ".." = before := by
  simp [pushSegment, h.2.2]

/-- `..` leads up from where other `..` have led. -/
theorem pushSegment_above (levels : Nat) :
    pushSegment false (List.replicate levels "..") ".." = List.replicate (levels + 1) ".." := by
  cases levels with
  | zero => rfl
  | succ levels => simp [pushSegment, List.replicate_succ]

/-- `..` leads nowhere from the root. -/
theorem pushSegment_root : pushSegment true [] ".." = [] := rfl

theorem IsNormal.push (h : IsNormal absolute before) (segment : String) :
    IsNormal absolute (pushSegment absolute before segment) := by
  rcases segment_cases segment with rfl | rfl | rfl | hname
  · rwa [pushSegment_empty]
  · rwa [pushSegment_here]
  · -- going back takes a name off, and only goes further up where no name is left
    cases h with
    | inside hbefore hname =>
      rw [pushSegment_back hname]
      exact hbefore
    | above levels hroot =>
      cases absolute with
      | false =>
        rw [pushSegment_above]
        exact .above (levels + 1) fun h => absurd h (by decide)
      | true =>
        rw [hroot rfl]
        exact isNormal_nil true
  · rw [pushSegment_name hname]
    exact h.inside hname

theorem IsNormal.foldl (h : IsNormal absolute before) (segments : List String) :
    IsNormal absolute (segments.foldl (pushSegment absolute) before) := by
  induction segments generalizing before with
  | nil => exact h
  | cons segment segments ih => exact ih (h.push segment)

/-- What a normal form is made of is built again from its segments. -/
theorem IsNormal.foldl_reverse (h : IsNormal absolute before) :
    before.reverse.foldl (pushSegment absolute) [] = before := by
  induction h with
  | above levels hroot =>
    rw [List.reverse_replicate]
    cases absolute with
    | true => rw [hroot rfl]; rfl
    | false =>
      -- each level up is pushed on those before it
      induction levels with
      | zero => rfl
      | succ levels ih =>
        rw [List.replicate_succ', List.foldl_append, ih fun h => absurd h (by decide),
          ← List.replicate_succ']
        exact pushSegment_above levels
  | inside _ hname ih =>
    rw [List.reverse_cons, List.foldl_append, ih]
    exact pushSegment_name hname

theorem IsNormal.ne_empty (h : IsNormal absolute before) (hsegment : segment ∈ before) :
    segment ≠ "" := by
  induction h with
  | above levels _ =>
    rw [List.eq_of_mem_replicate hsegment]
    decide
  | inside _ hname ih =>
    rcases List.mem_cons.mp hsegment with rfl | hsegment
    · exact hname.1
    · exact ih hsegment

/-- From the front, a normal form has its `..` first and then its names. -/
theorem IsNormal.exists_reverse_eq (h : IsNormal absolute before) :
    ∃ levels names, before.reverse = List.replicate levels ".." ++ names ∧
      (absolute = true → levels = 0) ∧ ∀ name ∈ names, IsName name := by
  induction h with
  | above levels hroot =>
    exact ⟨levels, [], by rw [List.reverse_replicate, List.append_nil], hroot, by simp⟩
  | @inside before last _ hlast ih =>
    obtain ⟨levels, names, hbefore, hroot, hnames⟩ := ih
    refine ⟨levels, names ++ [last], ?_, hroot, ?_⟩
    · rw [List.reverse_cons, hbefore, List.append_assoc]
    · intro name hname
      rcases List.mem_append.mp hname with hname | hname
      · exact hnames name hname
      · rw [List.mem_singleton.mp hname]
        exact hlast

/-! ## Segments that change nothing -/

/-- One segment that changes nothing is left out, or a name with the `..` that takes it back. -/
inductive Collapses (absolute : Bool) : List String → List String → Prop
  | empty (front rest : List String) : Collapses absolute (front ++ "" :: rest) (front ++ rest)
  | here (front rest : List String) : Collapses absolute (front ++ "." :: rest) (front ++ rest)
  | back (front rest : List String) {name : String} (hname : IsName name) :
      Collapses absolute (front ++ name :: ".." :: rest) (front ++ rest)
  /-- There is nothing above the root. -/
  | root (rest : List String) (habsolute : absolute = true) : Collapses absolute (".." :: rest) rest

/-- Any number of segments are left out, one after the other. -/
abbrev CollapsesTo (absolute : Bool) : List String → List String → Prop :=
  Relation.ReflTransGen (Collapses absolute)

/-- Leaving out what changes nothing does not change what is built. -/
theorem Collapses.foldl_eq {segments rest : List String} (h : Collapses absolute segments rest) :
    segments.foldl (pushSegment absolute) [] = rest.foldl (pushSegment absolute) [] := by
  cases h with
  | empty front rest => simp only [List.foldl_append, List.foldl_cons, pushSegment_empty]
  | here front rest => simp only [List.foldl_append, List.foldl_cons, pushSegment_here]
  | back front rest hname =>
    simp only [List.foldl_append, List.foldl_cons, pushSegment_name hname, pushSegment_back hname]
  | root rest habsolute =>
    subst habsolute
    rw [List.foldl_cons, pushSegment_root]

theorem CollapsesTo.foldl_eq {segments rest : List String}
    (h : CollapsesTo absolute segments rest) :
    segments.foldl (pushSegment absolute) [] = rest.foldl (pushSegment absolute) [] := by
  induction h with
  | refl => rfl
  | tail _ hstep ih => rw [ih, hstep.foldl_eq]

/-- One segment more leaves out at most what changes nothing. -/
theorem IsNormal.collapsesTo_pushSegment (h : IsNormal absolute before) (segment : String)
    (rest : List String) :
    CollapsesTo absolute (before.reverse ++ segment :: rest)
      ((pushSegment absolute before segment).reverse ++ rest) := by
  rcases segment_cases segment with rfl | rfl | rfl | hname
  · rw [pushSegment_empty]
    exact .single (.empty ..)
  · rw [pushSegment_here]
    exact .single (.here ..)
  · cases h with
    | @inside before name _ hname =>
      rw [pushSegment_back hname, List.reverse_cons, List.append_assoc]
      exact .single (.back _ _ hname)
    | above levels hroot =>
      cases absolute with
      | false =>
        -- nothing is left out: `..` goes behind the others
        rw [pushSegment_above, List.replicate_succ, List.reverse_cons, List.append_assoc]
        exact .refl
      | true =>
        rw [hroot rfl]
        exact .single (.root rest rfl)
  · rw [pushSegment_name hname, List.reverse_cons, List.append_assoc]
    exact .refl

/-- What is built from some segments is what they collapse to. -/
theorem IsNormal.collapsesTo_foldl (h : IsNormal absolute before) (segments : List String) :
    CollapsesTo absolute (before.reverse ++ segments)
      (segments.foldl (pushSegment absolute) before).reverse := by
  induction segments generalizing before with
  | nil =>
    rw [List.append_nil]
    exact .refl
  | cons segment segments ih =>
    exact (h.collapsesTo_pushSegment segment segments).trans (ih (h.push segment))

/-! ## Where a path leads -/

/-- Where a path leads from a place, which is given by its segments in reverse. -/
def walk (absolute : Bool) (before : List String) (path : String) : List String :=
  (Text.split '/' path).foldl (pushSegment absolute) before

theorem reverse_normalSegments (path : String) :
    (normalSegments path).reverse = walk (isAbsolute path) [] path :=
  List.reverse_reverse _

theorem walk_empty (absolute : Bool) (before : List String) : walk absolute before "" = before :=
  @pushSegment_empty absolute before

theorem split_slash (front rest : String) :
    Text.split '/' (front ++ "/" ++ rest) = Text.split '/' front ++ Text.split '/' rest :=
  Text.split_append_separator front rest

/-- The slash of the root has an empty segment before it. -/
theorem split_root (rest : String) : Text.split '/' ("/" ++ rest) = "" :: Text.split '/' rest := by
  have hsplit := split_slash "" rest
  rw [String.empty_append] at hsplit
  exact hsplit

theorem walk_slash (absolute : Bool) (before : List String) (front rest : String) :
    walk absolute before (front ++ "/" ++ rest) =
      walk absolute (walk absolute before front) rest := by
  rw [walk, split_slash, List.foldl_append]
  rfl

/-- A slash at the end leads no further. -/
theorem walk_append_slash (absolute : Bool) (before : List String) (front : String) :
    walk absolute before (front ++ "/") = walk absolute before front := by
  rw [← String.append_empty (s := front ++ "/"), walk_slash, walk_empty]

theorem walk_root (absolute : Bool) (before : List String) : walk absolute before "/" = before := by
  rw [← String.empty_append (s := "/"), walk_append_slash, walk_empty]

theorem walk_name (hname : IsName name) (hslash : '/' ∉ name.toList) :
    walk absolute before name = name :: before := by
  rw [walk, Text.split_of_notMem hslash]
  exact pushSegment_name hname

theorem isNormal_walk (absolute : Bool) (path : String) :
    IsNormal absolute (walk absolute [] path) :=
  (isNormal_nil absolute).foldl _

theorem isNormal_normalSegments (path : String) :
    IsNormal (isAbsolute path) (normalSegments path).reverse := by
  rw [reverse_normalSegments]
  exact isNormal_walk _ path

theorem mem_pushSegment (h : name ∈ pushSegment absolute before segment) :
    name = segment ∨ name ∈ before := by
  unfold pushSegment at h
  grind

theorem mem_foldl_pushSegment {segments : List String}
    (h : name ∈ segments.foldl (pushSegment absolute) before) :
    name ∈ segments ∨ name ∈ before := by
  induction segments generalizing before with
  | nil => exact Or.inr h
  | cons segment segments ih =>
    rcases ih h with hlater | hhere
    · exact Or.inl (List.mem_cons_of_mem _ hlater)
    · rcases mem_pushSegment hhere with rfl | hbefore
      · exact Or.inl (List.mem_cons_self ..)
      · exact Or.inr hbefore

theorem slash_notMem_of_mem_normalSegments (h : segment ∈ normalSegments path) :
    '/' ∉ segment.toList := by
  rcases mem_foldl_pushSegment (List.mem_reverse.mp h) with hsplit | hnone
  · exact Text.notMem_of_mem_split hsplit
  · cases hnone

theorem ne_empty_of_mem_normalSegments (h : segment ∈ normalSegments path) : segment ≠ "" :=
  (isNormal_normalSegments path).ne_empty (List.mem_reverse.mpr h)

/-! ## The text of a normal form -/

theorem split_join_normalSegments (hne : normalSegments path ≠ []) :
    Text.split '/' (Text.join "/" (normalSegments path)) = normalSegments path :=
  Text.split_join_singleton hne fun _ => slash_notMem_of_mem_normalSegments

theorem join_normalSegments_ne_empty (hne : normalSegments path ≠ []) :
    Text.join "/" (normalSegments path) ≠ "" := by
  intro hempty
  have hsplit := split_join_normalSegments hne
  rw [hempty] at hsplit
  -- the only part of the empty text is empty
  have hmem : "" ∈ normalSegments path := hsplit ▸ List.mem_singleton_self ""
  exact ne_empty_of_mem_normalSegments hmem rfl

theorem normalize_of_nil (h : normalSegments path = []) :
    normalize path = if isAbsolute path then "/" else "." := by
  rw [normalize, h]
  rfl

theorem normalize_of_ne_nil (hne : normalSegments path ≠ []) :
    normalize path =
      (if isAbsolute path then "/" else "") ++ Text.join "/" (normalSegments path) := by
  simp only [normalize, join_normalSegments_ne_empty hne, if_false]
  split
  · rfl
  · rw [String.empty_append]

theorem split_normalize_of_ne_nil (hne : normalSegments path ≠ []) :
    Text.split '/' (normalize path) =
      (if isAbsolute path then [""] else []) ++ normalSegments path := by
  rw [normalize_of_ne_nil hne]
  split
  · rw [split_root, split_join_normalSegments hne, List.singleton_append]
  · rw [String.empty_append, split_join_normalSegments hne, List.nil_append]

theorem isAbsolute_iff : isAbsolute path = true ↔ ∃ rest, path = "/" ++ rest :=
  Text.begins_iff

theorem isAbsolute_normalize (path : String) : isAbsolute (normalize path) = isAbsolute path := by
  by_cases hnil : normalSegments path = []
  · rw [normalize_of_nil hnil]
    cases isAbsolute path <;> decide
  · rw [Bool.eq_iff_iff, isAbsolute_iff]
    have hsplit := split_normalize_of_ne_nil hnil
    constructor
    · rintro ⟨rest, hrest⟩
      by_cases habsolute : isAbsolute path = true
      · exact habsolute
      -- an absolute path begins with an empty segment, and a normal form has none
      rw [hrest, split_root, if_neg habsolute, List.nil_append] at hsplit
      have hmem : "" ∈ normalSegments path := hsplit ▸ List.mem_cons_self ..
      exact absurd rfl (ne_empty_of_mem_normalSegments hmem)
    · intro habsolute
      rw [normalize_of_ne_nil hnil, if_pos habsolute]
      exact ⟨_, rfl⟩

/-- A normal form leads from a place as its segments do. -/
theorem walk_normalize (absolute : Bool) (before : List String) (path : String) :
    walk absolute before (normalize path) =
      (normalSegments path).foldl (pushSegment absolute) before := by
  by_cases hnil : normalSegments path = []
  · rw [normalize_of_nil hnil, hnil]
    cases isAbsolute path with
    | false => exact @pushSegment_here absolute before
    | true => exact walk_root absolute before
  · rw [walk, split_normalize_of_ne_nil hnil, List.foldl_append]
    split
    · rw [List.foldl_cons, pushSegment_empty, List.foldl_nil]
    · rw [List.foldl_nil]

theorem normalSegments_normalize (path : String) :
    normalSegments (normalize path) = normalSegments path := by
  apply List.reverse_inj.mp
  rw [reverse_normalSegments, isAbsolute_normalize, walk_normalize]
  have hbuilt := (isNormal_normalSegments path).foldl_reverse
  rwa [List.reverse_reverse] at hbuilt

/-- Two paths have one normal form if they begin alike and lead to the same place. -/
theorem normalize_eq_iff {path other : String} : normalize path = normalize other ↔
    isAbsolute path = isAbsolute other ∧ normalSegments path = normalSegments other := by
  constructor
  · intro h
    rw [← isAbsolute_normalize path, ← normalSegments_normalize path, h, isAbsolute_normalize,
      normalSegments_normalize]
    exact ⟨rfl, rfl⟩
  · rintro ⟨habsolute, hsegments⟩
    rw [normalize, normalize, habsolute, hsegments]

theorem normalize_normalize (path : String) : normalize (normalize path) = normalize path :=
  normalize_eq_iff.mpr ⟨isAbsolute_normalize path, normalSegments_normalize path⟩

/-- One segment more leads from every place to the same, whether what is before it has been put
into normal form or not. -/
theorem IsNormal.foldl_pushSegment (h : IsNormal false before) (absolute : Bool)
    (place : List String) (segment : String) :
    (pushSegment false before segment).reverse.foldl (pushSegment absolute) place =
      pushSegment absolute (before.reverse.foldl (pushSegment absolute) place) segment := by
  rcases segment_cases segment with rfl | rfl | rfl | hname
  · rw [pushSegment_empty, pushSegment_empty]
  · rw [pushSegment_here, pushSegment_here]
  · cases h with
    | above levels _ =>
      rw [pushSegment_above, List.replicate_succ, List.reverse_cons, List.foldl_append]
      rfl
    | inside _ hname =>
      -- wherever a name leads, `..` takes it back
      rw [pushSegment_back hname, List.reverse_cons, List.foldl_append, List.foldl_cons,
        List.foldl_nil, pushSegment_name hname, pushSegment_back hname]
  · rw [pushSegment_name hname, List.reverse_cons, List.foldl_append]
    rfl

theorem IsNormal.foldl_foldl (h : IsNormal false before) (absolute : Bool) (place : List String)
    (segments : List String) :
    (segments.foldl (pushSegment false) before).reverse.foldl
        (pushSegment absolute) place =
      segments.foldl (pushSegment absolute)
        (before.reverse.foldl (pushSegment absolute) place) := by
  induction segments generalizing before with
  | nil => rfl
  | cons segment segments ih =>
    rw [List.foldl_cons, ih (h.push segment), h.foldl_pushSegment absolute place segment]
    rfl

/-- The normal form of a path that is not absolute leads from every place to where the path
leads. -/
theorem walk_normalize_of_relative (hrelative : isAbsolute path = false) (absolute : Bool)
    (before : List String) :
    walk absolute before (normalize path) = walk absolute before path := by
  rw [walk_normalize, normalSegments, hrelative]
  exact (isNormal_nil false).foldl_foldl absolute before (Text.split '/' path)

/-! ## Joined paths -/

theorem isAbsolute_eq_head? (path : String) :
    isAbsolute path = (path.toList.head? == some '/') := by
  rw [Bool.eq_iff_iff, isAbsolute, Text.begins, beq_iff_eq]
  cases path.toList with
  | nil => simp [Text.dropStart?]
  | cons c cs =>
    by_cases h : '/' = c
    · subst h
      simp [Text.dropStart?]
    · simp [Text.dropStart?, h, Ne.symm h]

/-- Whether a path is absolute is seen from its beginning. -/
theorem isAbsolute_append {front : String} (hne : front ≠ "") (rest : String) :
    isAbsolute (front ++ rest) = isAbsolute front := by
  rw [isAbsolute_eq_head?, isAbsolute_eq_head?, String.toList_append]
  cases hfront : front.toList with
  | nil => exact absurd (String.toList_eq_nil_iff.mp hfront) hne
  | cons c cs => rfl

/-- A directory that is not empty stands before a slash, which may be its own. -/
theorem exists_join_eq {directory : String} (hne : directory ≠ "") :
    ∃ front, (∀ path, join directory path = front ++ "/" ++ path) ∧
      (directory = front ++ "/" ∨ directory = front) := by
  by_cases hlast : directory.toList.getLast? = some '/'
  · obtain ⟨cs, hcs⟩ := List.getLast?_eq_some_iff.mp hlast
    have hdirectory : directory = String.ofList cs ++ "/" := by
      apply String.toList_inj.mp
      rw [hcs, String.toList_append, String.toList_ofList]
      rfl
    refine ⟨String.ofList cs, ?_, Or.inl hdirectory⟩
    intro path
    rw [join, if_neg hne, if_pos hlast, ← hdirectory]
  · refine ⟨directory, ?_, Or.inr rfl⟩
    intro path
    rw [join, if_neg hne, if_neg hlast]

theorem walk_join (absolute : Bool) (before : List String) (directory path : String) :
    walk absolute before (join directory path) =
      walk absolute (walk absolute before directory) path := by
  by_cases hempty : directory = ""
  · rw [hempty, walk_empty]
    rfl
  · obtain ⟨front, hjoin, rfl | rfl⟩ := exists_join_eq hempty
    · rw [hjoin, walk_slash, walk_append_slash]
    · rw [hjoin, walk_slash]

theorem isAbsolute_join {path : String} (hrelative : isAbsolute path = false) (directory : String) :
    isAbsolute (join directory path) = isAbsolute directory := by
  by_cases hempty : directory = ""
  · rw [hempty]
    exact hrelative
  · rw [join, if_neg hempty]
    split
    · exact isAbsolute_append hempty _
    · rw [String.append_assoc]
      exact isAbsolute_append hempty _

/-- Where a joined path leads in the end depends on where its directory leads. -/
theorem normalSegments_join (hrelative : isAbsolute path = false) (directory : String) :
    (normalSegments (join directory path)).reverse =
      walk (isAbsolute directory) (normalSegments directory).reverse path := by
  rw [reverse_normalSegments, isAbsolute_join hrelative, walk_join, reverse_normalSegments]

theorem normalize_join_normalize_left (hrelative : isAbsolute path = false) (directory : String) :
    normalize (join (normalize directory) path) = normalize (join directory path) := by
  rw [normalize_eq_iff]
  constructor
  · rw [isAbsolute_join hrelative, isAbsolute_join hrelative, isAbsolute_normalize]
  · apply List.reverse_inj.mp
    rw [normalSegments_join hrelative, normalSegments_join hrelative, isAbsolute_normalize,
      normalSegments_normalize]

theorem normalize_join_normalize_right (hrelative : isAbsolute path = false) (directory : String) :
    normalize (join directory (normalize path)) = normalize (join directory path) := by
  have hnormal : isAbsolute (normalize path) = false := by rw [isAbsolute_normalize, hrelative]
  rw [normalize_eq_iff]
  constructor
  · rw [isAbsolute_join hrelative, isAbsolute_join hnormal]
  · apply List.reverse_inj.mp
    rw [normalSegments_join hrelative, normalSegments_join hnormal,
      walk_normalize_of_relative hrelative]

/-! ## Laws of normal forms -/

/-- A normal form is `.` or `/`, or it has some `..` first, none if it is absolute, and then names
only. -/
theorem normalize_shape (path : String) : normalize path = "." ∨ normalize path = "/" ∨
    ∃ levels names, Text.split '/' (normalize path) =
        (if isAbsolute path then [""] else []) ++ (List.replicate levels ".." ++ names) ∧
      (isAbsolute path = true → levels = 0) ∧ ∀ name ∈ names, IsName name := by
  by_cases hnil : normalSegments path = []
  · rw [normalize_of_nil hnil]
    cases isAbsolute path with
    | false => exact Or.inl rfl
    | true => exact Or.inr (Or.inl rfl)
  · obtain ⟨levels, names, hsegments, hroot, hnames⟩ :=
      (isNormal_normalSegments path).exists_reverse_eq
    rw [List.reverse_reverse] at hsegments
    refine Or.inr (Or.inr ⟨levels, names, ?_, hroot, hnames⟩)
    rw [split_normalize_of_ne_nil hnil, hsegments]

theorem collapsesTo_normalSegments (path : String) :
    CollapsesTo (isAbsolute path) (Text.split '/' path) (normalSegments path) :=
  (isNormal_nil _).collapsesTo_foldl (Text.split '/' path)

/-- Two paths have one normal form exactly if they begin alike and collapse to the same segments. -/
theorem normalize_eq_iff_collapsesTo {path other : String} : normalize path = normalize other ↔
    isAbsolute path = isAbsolute other ∧ ∃ rest,
      CollapsesTo (isAbsolute path) (Text.split '/' path) rest ∧
      CollapsesTo (isAbsolute other) (Text.split '/' other) rest := by
  rw [normalize_eq_iff]
  constructor
  · rintro ⟨habsolute, hsegments⟩
    refine ⟨habsolute, normalSegments path, collapsesTo_normalSegments path, ?_⟩
    rw [hsegments]
    exact collapsesTo_normalSegments other
  · rintro ⟨habsolute, rest, hpath, hother⟩
    refine ⟨habsolute, ?_⟩
    -- both lead from the start of the path to where the rest leads
    rw [normalSegments, normalSegments, hpath.foldl_eq, hother.foldl_eq, habsolute]

/-- A normal form is absolute exactly if the path is, has no segment that could be left out, is its
own normal form, may take the place of a directory that a path is joined to, and is shared by the
paths that begin alike and collapse to the same segments, and by no others. -/
theorem normalize_canonical :
    (∀ path, isAbsolute (normalize path) = isAbsolute path) ∧
    (∀ path, normalize path = "." ∨ normalize path = "/" ∨
      ∃ levels names, Text.split '/' (normalize path) =
          (if isAbsolute path then [""] else []) ++ (List.replicate levels ".." ++ names) ∧
        (isAbsolute path = true → levels = 0) ∧ ∀ name ∈ names, IsName name) ∧
    (∀ path, normalize (normalize path) = normalize path) ∧
    (∀ directory path, isAbsolute path = false →
      normalize (join (normalize directory) path) = normalize (join directory path)) ∧
    ∀ path other, normalize path = normalize other ↔
      isAbsolute path = isAbsolute other ∧ ∃ rest,
        CollapsesTo (isAbsolute path) (Text.split '/' path) rest ∧
        CollapsesTo (isAbsolute other) (Text.split '/' other) rest :=
  ⟨isAbsolute_normalize, normalize_shape, normalize_normalize,
    fun directory _ hrelative => normalize_join_normalize_left hrelative directory,
    fun _ _ => normalize_eq_iff_collapsesTo⟩

theorem climbing_normalize :
    isAbsolute "../../shared//./ws" = false ∧
    normalize "lib/../../work/" = "../work" ∧
    normalize (join "../work" "../../shared//./ws") = "../../shared/ws" ∧
    normalize (join (normalize "lib/../../work/") "../../shared//./ws") =
      normalize (join "lib/../../work/" "../../shared//./ws") := by
  have hrelative : isAbsolute "../../shared//./ws" = false := by decide
  refine ⟨hrelative, by decide +kernel, by decide +kernel, ?_⟩
  exact normalize_canonical.2.2.2.1 "lib/../../work/" "../../shared//./ws" hrelative

end ModularGrammar.Path
