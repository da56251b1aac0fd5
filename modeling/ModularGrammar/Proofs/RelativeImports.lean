import ModularGrammar.FileLayout
import ModularGrammar.Proofs.NormalPath

/-!
# Where Relative Imports Lie

A relative import is written as seen from the importing module, and its file lies there: to name the
imported module and then to place its file comes to the same as going from the directory of the
importing module's file along the written path.  The base directory is put before both files or
before none, and every part of the way leads to the same place whether it has been put into normal
form or not.

## Architecture

1. `Path.parent`: the directory of a path, and where it leads
2. `Path.normalize_append_extension`: a name may be extended before or after normalization
3. `FileLayout.relative_imports_beside`: the file of a relative import
-/

namespace ModularGrammar

namespace Path

variable {path leaf extension : String}

/-! ## Directories of paths -/

theorem exists_last_slash (h : '/' ∈ path.toList) :
    ∃ directory leaf, path = directory ++ "/" ++ leaf ∧ '/' ∉ leaf.toList := by
  obtain ⟨directory, leaf, hpath, hleaf⟩ := Text.exists_append_last h
  have hsep : String.singleton '/' = "/" := rfl
  rw [hsep] at hpath
  exact ⟨directory, leaf, hpath, hleaf⟩

/-- A path is a name only, or a directory and a name below it. -/
theorem path_cases (path : String) : '/' ∉ path.toList ∨
    ∃ directory leaf, path = directory ++ "/" ++ leaf ∧ '/' ∉ leaf.toList := by
  by_cases h : '/' ∈ path.toList
  · exact Or.inr (exists_last_slash h)
  · exact Or.inl h

/-- A text without a slash has none from the end, either. -/
theorem forall_ne_slash {cs : List Char} (h : '/' ∉ cs) :
    ∀ c ∈ cs.reverse, decide (c ≠ '/') = true := by
  intro c hc
  rw [decide_eq_true_eq]
  rintro rfl
  exact h (List.mem_reverse.mp hc)

theorem parent_of_notMem (h : '/' ∉ path.toList) : parent path = "" := by
  have hnone : path.toList.reverse.dropWhile (· ≠ '/') = [] := by
    rw [← List.append_nil path.toList.reverse, List.dropWhile_append_of_pos (forall_ne_slash h),
      List.dropWhile_nil]
  rw [parent, hnone]

theorem parent_slash (directory : String) (h : '/' ∉ leaf.toList) :
    parent (directory ++ "/" ++ leaf) = if directory = "" then "/" else directory := by
  have hreverse : (directory ++ "/" ++ leaf).toList.reverse =
      leaf.toList.reverse ++ '/' :: directory.toList.reverse := by simp
  -- taken from the end, everything up to the last slash is the leaf
  have hdrop : (directory ++ "/" ++ leaf).toList.reverse.dropWhile (· ≠ '/') =
      '/' :: directory.toList.reverse := by
    rw [hreverse, List.dropWhile_append_of_pos (forall_ne_slash h)]
    exact List.dropWhile_cons_of_neg (by decide)
  rw [parent, hdrop]
  -- the slash itself stays only where nothing stands before it
  cases hdirectory : directory.toList.reverse with
  | nil =>
    have hempty := String.toList_eq_nil_iff.mp (List.reverse_eq_nil_iff.mp hdirectory)
    rw [if_pos hempty]
  | cons c cs =>
    have hne : directory ≠ "" := by
      rintro rfl
      cases hdirectory
    rw [if_neg hne]
    show String.ofList (c :: cs).reverse = directory
    rw [← hdirectory, List.reverse_reverse, String.ofList_toList]

/-- The directory before a slash, be it the root, leads to where the text before the slash does. -/
theorem walk_parent_slash (absolute : Bool) (before : List String) (directory : String)
    (h : '/' ∉ leaf.toList) :
    walk absolute before (parent (directory ++ "/" ++ leaf)) = walk absolute before directory := by
  rw [parent_slash directory h]
  split
  · next hempty => rw [hempty, walk_root, walk_empty]
  · rfl

theorem isAbsolute_parent (path : String) : isAbsolute (parent path) = isAbsolute path := by
  rcases path_cases path with hname | ⟨directory, leaf, rfl, hleaf⟩
  · rw [parent_of_notMem hname, isAbsolute_eq_head?, isAbsolute_eq_head?]
    cases hpath : path.toList with
    | nil => rfl
    | cons c cs =>
      have hne : c ≠ '/' := by
        rintro rfl
        exact hname (hpath ▸ List.mem_cons_self ..)
      simpa using hne
  · rw [parent_slash directory hleaf]
    split
    · next hempty =>
      -- the file stands at the root, which is its directory
      rw [hempty, String.empty_append]
      exact (isAbsolute_append (by decide) leaf).symm
    · next hne => rw [String.append_assoc, isAbsolute_append hne]

/-- What is put behind a path without a slash of its own stays in the directory of the path. -/
theorem parent_append (path : String) (h : '/' ∉ extension.toList) :
    parent (path ++ extension) = parent path := by
  rcases path_cases path with hname | ⟨directory, leaf, rfl, hleaf⟩
  · have hboth : '/' ∉ (path ++ extension).toList := by
      rw [String.toList_append, List.mem_append, not_or]
      exact ⟨hname, h⟩
    rw [parent_of_notMem hboth, parent_of_notMem hname]
  · have hboth : '/' ∉ (leaf ++ extension).toList := by
      rw [String.toList_append, List.mem_append, not_or]
      exact ⟨hleaf, h⟩
    rw [String.append_assoc, parent_slash directory hboth, parent_slash directory hleaf]

theorem join_slash (directory front rest : String) :
    join directory (front ++ "/" ++ rest) = join directory front ++ "/" ++ rest := by
  unfold join
  split
  · rfl
  · split <;> simp only [String.append_assoc]

/-- The directory of a joined path is the directory of the path, as seen from the other one. -/
theorem walk_parent_join (absolute : Bool) (before : List String) (directory path : String) :
    walk absolute before (parent (join directory path)) =
      walk absolute (walk absolute before directory) (parent path) := by
  rcases path_cases path with hname | ⟨front, leaf, rfl, hleaf⟩
  · rw [parent_of_notMem hname, walk_empty]
    by_cases hempty : directory = ""
    · -- nothing is put before the path
      rw [hempty, walk_empty]
      show walk absolute before (parent path) = before
      rw [parent_of_notMem hname, walk_empty]
    · obtain ⟨front, hjoin, hdirectory⟩ := exists_join_eq hempty
      rw [hjoin, walk_parent_slash absolute before front hname]
      rcases hdirectory with rfl | rfl
      · rw [walk_append_slash]
      · rfl
  · rw [join_slash, walk_parent_slash absolute before _ hleaf, walk_join,
      walk_parent_slash absolute _ front hleaf]

/-! ## Extensions of names -/

theorem IsName.extend {name : String} (h : IsName name) (extension : String) :
    IsName (name ++ "." ++ extension) := by
  obtain ⟨hempty, hhere, -⟩ := h
  have hchars : (name ++ "." ++ extension).toList = name.toList ++ '.' :: extension.toList := by
    simp
  have hne : name.toList ≠ [] := fun hnil => hempty (String.toList_eq_nil_iff.mp hnil)
  refine ⟨?_, ?_, ?_⟩ <;> intro heq <;> rw [heq] at hchars
  · simp at hchars
  · cases hname : name.toList with
    | nil => exact hne hname
    | cons c cs => simp [hname] at hchars
  · match hname : name.toList with
    | [] => exact hne hname
    | [c] =>
      -- the name would be the first of the two characters
      rw [hname] at hchars
      have hc : '.' = c := (List.cons.inj hchars).1
      exact hhere (String.toList_inj.mp (by rw [hname, ← hc]; rfl))
    | _ :: _ :: _ => simp [hname] at hchars

/-- All that stands before the last name of a normal form comes from the directory. -/
theorem exists_normalize_slash (directory : String) : ∃ front, ∀ name, IsName name →
    '/' ∉ name.toList → normalize (directory ++ "/" ++ name) = front ++ name := by
  have hstart : directory ++ "/" ≠ "" := by simp [String.append_eq_empty_iff]
  -- the directory leads to some place, whatever the name is
  let place := walk (isAbsolute (directory ++ "/")) [] directory
  refine ⟨(if isAbsolute (directory ++ "/") then "/" else "") ++
    if place = [] then "" else Text.join "/" place.reverse ++ "/", ?_⟩
  intro name hname hslash
  have habsolute : isAbsolute (directory ++ "/" ++ name) = isAbsolute (directory ++ "/") :=
    isAbsolute_append hstart name
  have hsegments : normalSegments (directory ++ "/" ++ name) = place.reverse ++ [name] := by
    apply List.reverse_inj.mp
    rw [reverse_normalSegments, habsolute, walk_slash, walk_name hname hslash]
    simp [place]
  have hjoin : Text.join "/" (place.reverse ++ [name]) =
      (if place = [] then "" else Text.join "/" place.reverse ++ "/") ++ name := by
    split
    · next hnil => simp [hnil, Text.join, Text.joinChars]
    · next hne => rw [Text.join_concat (by simpa using hne)]
  rw [normalize_of_ne_nil (by simp [hsegments]), habsolute, hsegments, hjoin, String.append_assoc]

/-- A name may be extended before or after normalization. -/
theorem normalize_append_extension (directory : String) {name : String} (hname : IsName name)
    (hslash : '/' ∉ (name ++ "." ++ extension).toList) :
    normalize (directory ++ "/" ++ name) ++ "." ++ extension =
      normalize (directory ++ "/" ++ (name ++ "." ++ extension)) := by
  obtain ⟨front, hfront⟩ := exists_normalize_slash directory
  have hshort : '/' ∉ name.toList := by
    intro hmem
    apply hslash
    rw [String.append_assoc, String.toList_append]
    exact List.mem_append_left _ hmem
  rw [hfront name hname hshort, hfront _ (hname.extend extension) hslash]
  simp only [String.append_assoc]

end Path

/-! ## Files of imported modules -/

namespace FileLayout

open ModularGrammar.Path

/-- The name of a module in a relative import is seen from the directory of the importing module. -/
theorem resolve_of_isRelative (layout : FileLayout) (importer path : String)
    (h : isRelative path = true) :
    layout.resolve (some importer) path = normalize (join (parent importer) path) := by
  rw [resolve, if_pos h]
  rfl

section Written

variable {path : String} (hwritten : Text.begins "./" path = true ∨ Text.begins "../" path = true)

include hwritten

theorem isRelative_of_begins : isRelative path = true := by
  simp only [isRelative, Bool.or_eq_true]
  rcases hwritten with h | h
  · exact Or.inl (Or.inr h)
  · exact Or.inr h

theorem isAbsolute_of_begins : isAbsolute path = false := by
  rw [isAbsolute_eq_head?]
  rcases hwritten with h | h <;> obtain ⟨rest, rfl⟩ := Text.begins_iff.mp h <;> simp

theorem exists_slash_of_begins :
    ∃ directory leaf, path = directory ++ "/" ++ leaf ∧ '/' ∉ leaf.toList := by
  have hslash : '/' ∈ path.toList := by
    rcases hwritten with h | h <;> obtain ⟨rest, rfl⟩ := Text.begins_iff.mp h <;> simp
  exact exists_last_slash hslash

end Written

/-- The directory of a module's file, as far as it does not come from the base directory. -/
theorem parent_file (module : String) {extension : String} (h : '/' ∉ extension.toList) :
    parent (module ++ "." ++ extension) = parent module := by
  have hboth : '/' ∉ ("." ++ extension).toList := by
    rw [String.toList_append, List.mem_append, not_or]
    exact ⟨by decide, h⟩
  rw [String.append_assoc, parent_append module hboth]

/-- The name of a relative import with an extension is the normal form of the written path with the
extension, as seen from the directory of the importing module. -/
theorem resolve_append_extension (layout : FileLayout) (importer : String)
    {path extension : String} (hextension : '/' ∉ extension.toList)
    (hwritten : Text.begins "./" path = true ∨ Text.begins "../" path = true)
    (hlast : IsName ((Text.split '/' path).getLast (Text.split_ne_nil '/' path))) :
    layout.resolve (some importer) path ++ "." ++ extension =
      normalize (join (parent importer) (path ++ "." ++ extension)) := by
  rw [resolve_of_isRelative layout importer path (isRelative_of_begins hwritten)]
  obtain ⟨directory, leaf, rfl, hleaf⟩ := exists_slash_of_begins hwritten
  have hname : IsName leaf := by
    simpa [split_slash, Text.split_of_notMem hleaf] using hlast
  have hslash : '/' ∉ (leaf ++ "." ++ extension).toList := by
    simp [hleaf, hextension]
  have hwhole : directory ++ "/" ++ leaf ++ "." ++ extension =
      directory ++ "/" ++ (leaf ++ "." ++ extension) := by
    simp only [String.append_assoc]
  rw [hwhole, join_slash, join_slash]
  exact normalize_append_extension _ hname hslash

/-- The file of a module in a relative import is the one that the written path leads to from the
directory of the importing module's file. -/
theorem relative_imports_beside (layout : FileLayout) (importer : String) {path extension : String}
    (hextension : '/' ∉ extension.toList)
    (hwritten : Text.begins "./" path = true ∨ Text.begins "../" path = true)
    (hlast : IsName ((Text.split '/' path).getLast (Text.split_ne_nil '/' path))) :
    normalize (layout.filePath (layout.resolve (some importer) path) extension) =
      normalize (join (parent (layout.filePath importer extension))
        (path ++ "." ++ extension)) := by
  have hfile := resolve_append_extension layout importer hextension hwritten hlast
  have hparent := parent_file importer hextension
  have hrelative : isAbsolute (path ++ "." ++ extension) = false := by
    obtain ⟨directory, leaf, hpath, -⟩ := exists_slash_of_begins hwritten
    rw [String.append_assoc, isAbsolute_append (by simp [hpath, String.append_eq_empty_iff]),
      isAbsolute_of_begins hwritten]
  -- both files are absolute, or neither is
  have himporter : isAbsolute (importer ++ "." ++ extension) = isAbsolute (parent importer) := by
    rw [← isAbsolute_parent, hparent]
  have himported : isAbsolute (normalize (join (parent importer) (path ++ "." ++ extension))) =
      isAbsolute (parent importer) := by
    rw [isAbsolute_normalize, isAbsolute_join hrelative]
  simp only [filePath, hfile, himporter, himported]
  cases layout.baseDirectory with
  | none =>
    show normalize (normalize _) = _
    rw [normalize_normalize, hparent]
  | some base =>
    cases habsolute : isAbsolute (parent importer) with
    | true =>
      simp only [if_true]
      rw [normalize_normalize, hparent]
    | false =>
      simp only [Bool.false_eq_true, if_false]
      have hbeside : isAbsolute (join (parent importer) (path ++ "." ++ extension)) = false := by
        rw [isAbsolute_join hrelative, habsolute]
      have hbase : isAbsolute (parent (join base (importer ++ "." ++ extension))) =
          isAbsolute base := by
        rw [isAbsolute_parent, isAbsolute_join (himporter.trans habsolute)]
      rw [normalize_join_normalize_right hbeside, normalize_eq_iff]
      constructor
      · rw [isAbsolute_join hbeside, isAbsolute_join hrelative, hbase]
      · -- on both ways: to the base directory, to the importing module's directory and on
        apply List.reverse_inj.mp
        rw [reverse_normalSegments, reverse_normalSegments, isAbsolute_join hbeside,
          isAbsolute_join hrelative, hbase, walk_join, walk_join, walk_join, walk_parent_join,
          hparent]

/-- A base directory that an import climbs out of. -/
def servedLayout : FileLayout := { baseDirectory := some "/work/../srv" }

theorem servedLayout_imports_beside :
    '/' ∉ "y.json".toList ∧ Text.begins "../" "../../../shared//./ws" = true ∧
    servedLayout.resolve (some "../lib/./expr") "../../../shared//./ws" = "../../../shared/ws" ∧
    servedLayout.filePath "../lib/./expr" "y.json" = "/work/../srv/../lib/./expr.y.json" ∧
    normalize (servedLayout.filePath
        (servedLayout.resolve (some "../lib/./expr") "../../../shared//./ws") "y.json") =
      normalize (join (parent (servedLayout.filePath "../lib/./expr" "y.json"))
        ("../../../shared//./ws" ++ "." ++ "y.json")) ∧
    normalize (join (parent (servedLayout.filePath "../lib/./expr" "y.json"))
      ("../../../shared//./ws" ++ "." ++ "y.json")) = "/shared/ws.y.json" := by
  have hextension : '/' ∉ "y.json".toList := by decide
  have hwritten : Text.begins "../" "../../../shared//./ws" = true := by decide
  refine ⟨hextension, hwritten, by decide +kernel, by decide +kernel, ?_, by decide +kernel⟩
  exact relative_imports_beside servedLayout "../lib/./expr" hextension (Or.inr hwritten)
    (by decide)

end FileLayout

end ModularGrammar
