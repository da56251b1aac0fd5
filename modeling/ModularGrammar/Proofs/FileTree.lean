import ModularGrammar.FileTree
import ModularGrammar.Proofs.Merging
import ModularGrammar.Proofs.Segment

/-!
# Laws of File Trees

Setting an entry changes what stands at its place and nothing else.  Making directories puts them on
the way to a place and never in the place of something.  What is written to a file is read back, and
whatever could be read before can be read afterwards, with another content only if it was written.

## Architecture

1. `at?_set`, `at?_makeDirectories`: what stands where after a change
2. `Written`, `written_of_write`: what writing a file comes to
3. `Leads`: where a name leads (`step_eq_ok_iff`), and still leads once a file has been written, one
   name (`Leads.set`) and all of them (`follow_set`)
4. `readText_of_write`, `read_of_write`: reading after writing
-/

namespace ModularGrammar.FileTree

/-! ## Changes -/

variable {tree : FileTree} {place : Place}

theorem at?_set (entry : Entry) (hplace : place ≠ []) (p : Place) :
    (tree.set place entry).at? p = if p = place then some entry else tree.at? p := by
  by_cases hp : p = place
  · subst hp
    simp [at?, set, hplace]
  · have hbeq : (p == place) = false := beq_false_of_ne hp
    simp [at?, set, hp, List.lookup_cons, hbeq]

/-- Directories are made where nothing is, at the place and on the way to it. -/
theorem at?_makeDirectories (tree : FileTree) (place p : Place) :
    (tree.makeDirectories place).at? p =
      (tree.at? p).or (if p <:+ place then some .directory else none) := by
  induction place generalizing p with
  | nil =>
    by_cases hp : p = []
    · subst hp
      rfl
    · simp [makeDirectories, hp]
  | cons name above ih =>
    -- the place itself is not on the way to the directory above
    have hself : ¬ name :: above <:+ above := fun h => Nat.not_succ_le_self _ h.length_le
    have hat : (tree.makeDirectories above).at? (name :: above) = tree.at? (name :: above) := by
      simp [ih, hself]
    have hway : p <:+ name :: above ↔ p = name :: above ∨ p <:+ above := List.suffix_cons_iff
    rw [makeDirectories, hat]
    cases hentry : tree.at? (name :: above) with
    | some entry =>
      rw [Option.isSome_some, if_pos rfl, ih]
      by_cases hp : p = name :: above
      · simp [hp, hentry]
      · simp [hway, hp]
    | none =>
      rw [Option.isSome_none, if_neg Bool.false_ne_true, at?_set _ (List.cons_ne_nil name above),
        ih]
      by_cases hp : p = name :: above
      · simp [hp, hentry]
      · simp [hway, hp]

/-- A tree that is made for its current directory has this directory and those above it. -/
theorem at?_ofCurrent (current p : Place) :
    (ofCurrent current).at? p = if p <:+ current then some .directory else none := by
  rw [ofCurrent, at?_makeDirectories]
  by_cases hp : p = []
  · simp [at?, hp]
  · simp [at?, hp]

/-- A directory that is added takes the place of nothing. -/
theorem at?_addDirectory (tree : FileTree) (path : String) (p : Place) :
    (tree.addDirectory path).at? p =
      (tree.at? p).or (if p <:+ placeOf tree.current path then some .directory else none) :=
  at?_makeDirectories tree _ p

/-! ## Writing -/

/-- A text has been written to a file: the names before the last one lead to a directory, and the
last one, which no directory has there, is now that of a file with the text. -/
structure Written (tree : FileTree) (path text : String) (names : List String) (name : String)
    (above : Place) (tree' : FileTree) : Prop where
  followable : checkPath path = .ok ()
  cut : Text.split '/' path = names ++ [name]
  led : tree.follow (Path.isAbsolute path) names = .ok (.inside above)
  isDirectory : tree.isDirectory (.inside above) = true
  proper : name ≠ "" ∧ name ≠ "." ∧ name ≠ ".."
  short : name.utf8ByteSize ≤ maxNameLength
  free : tree.at? (name :: above) ≠ some .directory
  result : tree' = tree.set (name :: above) (.file text.toUTF8)

theorem written_of_write {tree tree' : FileTree} {path text : String}
    (h : tree.write path text = .ok tree') :
    ∃ names name above, Written tree path text names name above tree' := by
  rw [write] at h
  obtain ⟨⟨⟩, hcheck, h⟩ := except_bind_eq_ok.mp h
  dsimp only at h
  split at h
  · cases h
  next name above hnames =>
  obtain ⟨spot, hled, h⟩ := except_bind_eq_ok.mp h
  -- whatever stops the writing throws, so none of it is the case
  split at h
  · cases h
  next hdirectory =>
  split at h
  · cases h
  next hproper =>
  split at h
  · cases h
  next hshort =>
  cases spot with
  | above => cases h
  | inside directory =>
    dsimp only at h
    split at h
    · cases h
    next hfree =>
    cases h
    obtain ⟨hlast, hdot, hdots⟩ : (Text.split '/' path).reverse.head? ≠ some "" ∧ name ≠ "." ∧
        name ≠ ".." := by simpa using hproper
    -- the path does not end in a separator, so its last name is the last part
    have hreverse : (Text.split '/' path).reverse = name :: above := by
      cases hparts : (Text.split '/' path).reverse with
      | nil =>
        rw [hparts] at hnames
        cases hnames
      | cons first rest =>
        rw [hparts] at hnames hlast
        have hfirst : first ≠ "" := by simpa using hlast
        simpa [hfirst] using hnames
    have hname : name ≠ "" := by simpa [hreverse] using hlast
    refine ⟨above.reverse, name, directory, hcheck, ?_, hled, by simpa using hdirectory,
      ⟨hname, hdot, hdots⟩, Nat.le_of_not_lt hshort, fun h => hfree h, rfl⟩
    rw [← List.reverse_reverse (Text.split '/' path), hreverse, List.reverse_cons]

/-! ## Following paths -/

/-- A name leads from a directory to another place. -/
inductive Leads (tree : FileTree) : Spot → String → Spot → Prop where
  | stay {spot : Spot} {name : String} (hdirectory : tree.isDirectory spot = true)
      (hname : name = "" ∨ name = ".") : Leads tree spot name spot
  | up {spot : Spot} (hdirectory : tree.isDirectory spot = true) : Leads tree spot ".." spot.parent
  | down {place : Place} {name : String} (hdirectory : tree.isDirectory (.inside place) = true)
      (hproper : name ≠ "" ∧ name ≠ "." ∧ name ≠ "..")
      (hshort : name.utf8ByteSize ≤ maxNameLength)
      (hthere : (tree.at? (name :: place)).isSome = true) :
      Leads tree (.inside place) name (.inside (name :: place))

theorem step_eq_ok_iff {spot target : Spot} {name : String} :
    tree.step spot name = .ok target ↔ tree.Leads spot name target := by
  constructor
  · intro h
    unfold step at h
    split at h
    · cases h
    next hdirectory =>
    have hdirectory : tree.isDirectory spot = true := by simpa using hdirectory
    split at h
    · next hname =>
      cases h
      exact .stay hdirectory hname
    next hname =>
    split at h
    · next hdots =>
      subst hdots
      cases h
      exact .up hdirectory
    next hdots =>
    split at h
    · cases h
    next hshort =>
    -- above the tree no name is found
    cases spot with
    | above => cases h
    | inside place =>
      dsimp only at h
      split at h
      · next hthere =>
        cases h
        obtain ⟨hempty, hdot⟩ := not_or.mp hname
        exact .down hdirectory ⟨hempty, hdot, hdots⟩ (Nat.le_of_not_lt hshort) hthere
      · cases h
  · intro h
    cases h with
    | stay hdirectory hname => simp [step, hdirectory, hname]
    | up hdirectory => simp [step, hdirectory]
    | down hdirectory hproper hshort hthere =>
      simp [step, hdirectory, hproper, hthere, Nat.not_lt.mpr hshort]

variable {content : ByteArray} (hplace : place ≠ [])

include hplace

/-- Nothing that was there is gone. -/
theorem isSome_at?_set {p : Place} (h : (tree.at? p).isSome = true) :
    ((tree.set place (.file content)).at? p).isSome = true := by
  rw [at?_set _ hplace]
  split
  · rfl
  · exact h

variable (hfree : tree.at? place ≠ some .directory)

include hfree

/-- A file that takes the place of no directory leaves all directories what they are. -/
theorem isDirectory_set {spot : Spot} (h : tree.isDirectory spot = true) :
    (tree.set place (.file content)).isDirectory spot = true := by
  cases spot with
  | above => rfl
  | inside p =>
    have hp : p ≠ place := by
      rintro rfl
      rw [isDirectory] at h
      split at h
      · next hdirectory => exact hfree hdirectory
      · cases h
    rw [isDirectory, at?_set _ hplace, if_neg hp]
    exact h

theorem Leads.set {spot target : Spot} {name : String} (h : tree.Leads spot name target) :
    (tree.set place (.file content)).Leads spot name target := by
  cases h with
  | stay hdirectory hname => exact .stay (isDirectory_set hplace hfree hdirectory) hname
  | up hdirectory => exact .up (isDirectory_set hplace hfree hdirectory)
  | down hdirectory hproper hshort hthere =>
    exact .down (isDirectory_set hplace hfree hdirectory) hproper hshort
      (isSome_at?_set hplace hthere)

/-- Names lead where they have led. -/
theorem foldlM_step_set {names : List String} {spot target : Spot}
    (h : names.foldlM tree.step spot = .ok target) :
    names.foldlM (tree.set place (.file content)).step spot = .ok target := by
  induction names generalizing spot with
  | nil => exact h
  | cons name rest ih =>
    rw [List.foldlM_cons] at h ⊢
    obtain ⟨next, hstep, hrest⟩ := except_bind_eq_ok.mp h
    exact except_bind_eq_ok.mpr
      ⟨next, step_eq_ok_iff.mpr ((step_eq_ok_iff.mp hstep).set hplace hfree), ih hrest⟩

theorem follow_set {absolute : Bool} {names : List String} {target : Spot}
    (h : tree.follow absolute names = .ok target) :
    (tree.set place (.file content)).follow absolute names = .ok target :=
  foldlM_step_set hplace hfree h

omit hplace hfree

/-! ## Reading -/

theorem read_eq_ok_iff {path : String} {content : ByteArray} :
    tree.read path = .ok content ↔ checkPath path = .ok () ∧ ∃ place,
      tree.follow (Path.isAbsolute path) (Text.split '/' path) = .ok (.inside place) ∧
        tree.at? place = some (.file content) := by
  constructor
  · intro h
    rw [read] at h
    obtain ⟨⟨⟩, hcheck, h⟩ := except_bind_eq_ok.mp h
    obtain ⟨spot, hled, h⟩ := except_bind_eq_ok.mp h
    -- the way must lead into the tree, and to a file there
    cases spot with
    | above => cases h
    | inside place =>
      dsimp only at h
      split at h
      · next hfile =>
        cases h
        exact ⟨hcheck, place, hled, hfile⟩
      · cases h
  · rintro ⟨hcheck, place, hled, hfile⟩
    rw [read, hcheck]
    refine except_bind_eq_ok.mpr ⟨(), rfl, except_bind_eq_ok.mpr ⟨_, hled, ?_⟩⟩
    simp only [hfile]
    rfl

theorem textOf_toUTF8 (text : String) : textOf text.toUTF8 = .ok text := by
  rw [textOf, String.fromUTF8?, String.toUTF8_eq_toByteArray, dif_pos text.isValidUTF8]
  rfl

/-- A file holds what has been written to it. -/
theorem read_of_write {tree' : FileTree} {path text : String}
    (h : tree.write path text = .ok tree') : tree'.read path = .ok text.toUTF8 := by
  obtain ⟨names, name, above, hwritten⟩ := written_of_write h
  have hplace : name :: above ≠ [] := List.cons_ne_nil name above
  rw [read_eq_ok_iff, hwritten.result]
  refine ⟨hwritten.followable, name :: above, ?_, by rw [at?_set _ hplace, if_pos rfl]⟩
  -- the names before the last one lead where they led, and there the last one is found now
  have hled : (tree.set (name :: above) (.file text.toUTF8)).follow (Path.isAbsolute path) names =
      .ok (.inside above) := follow_set hplace hwritten.free hwritten.led
  have hlast : (tree.set (name :: above) (.file text.toUTF8)).step (.inside above) name =
      .ok (.inside (name :: above)) := by
    apply step_eq_ok_iff.mpr
    refine .down (isDirectory_set hplace hwritten.free hwritten.isDirectory) hwritten.proper
      hwritten.short ?_
    rw [at?_set _ hplace, if_pos rfl]
    rfl
  rw [hwritten.cut, follow, List.foldlM_append]
  refine except_bind_eq_ok.mpr ⟨_, hled, ?_⟩
  rw [List.foldlM_cons, hlast]
  rfl

theorem readText_of_write {tree' : FileTree} {path text : String}
    (h : tree.write path text = .ok tree') : tree'.readText path = .ok text := by
  rw [readText, read_of_write h]
  exact textOf_toUTF8 text

/-- Whatever could be read can be read still, and its content is the old one or what has been
written. -/
theorem read_of_read_of_write {tree' : FileTree} {path text other : String} {content : ByteArray}
    (h : tree.write path text = .ok tree') (hread : tree.read other = .ok content) :
    tree'.read other = .ok content ∨ tree'.read other = .ok text.toUTF8 := by
  obtain ⟨names, name, above, hwritten⟩ := written_of_write h
  obtain ⟨hcheck, place, hled, hfile⟩ := read_eq_ok_iff.mp hread
  have hplace : name :: above ≠ [] := List.cons_ne_nil name above
  have hled : (tree.set (name :: above) (.file text.toUTF8)).follow (Path.isAbsolute other)
      (Text.split '/' other) = .ok (.inside place) := follow_set hplace hwritten.free hled
  simp only [read_eq_ok_iff, hwritten.result]
  by_cases hsame : place = name :: above
  · exact .inr ⟨hcheck, place, hled, by rw [at?_set _ hplace, if_pos hsame]⟩
  · exact .inl ⟨hcheck, place, hled, by rw [at?_set _ hplace, if_neg hsame, hfile]⟩

end ModularGrammar.FileTree
