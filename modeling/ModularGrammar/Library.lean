import ModularGrammar.FileLayout

/-!
# Libraries

A finite collection of module sources, each under the path of its module, with the rule that turns
the paths written in imports into such paths.
-/

namespace ModularGrammar

/-- How a path in an import names a module, given the importing module; an entry has none. -/
abbrev PathRule := Option String → String → String

/-- The rule under which paths are names of modules. -/
def PathRule.verbatim : PathRule := fun _ path => path

/-- Module sources under their paths. -/
structure Library where
  pathRule : PathRule
  /-- What is found at each path: the documents, or the reason why they cannot be had. -/
  sources : Table (Except Failure Source)

namespace Library

/-- What is found at a path; nothing, if it is not in the library. -/
def fetch (library : Library) (path : String) : Except Failure (Option Source) :=
  match library.sources.get? path with
  | none => .ok none
  | some (.ok source) => .ok (some source)
  | some (.error failure) => .error failure

/-- A module that is fetched is in the library. -/
theorem mem_keys_of_fetch {library : Library} {path : String} {source : Source}
    (h : library.fetch path = .ok (some source)) : path ∈ library.sources.keys := by
  unfold fetch at h
  cases hg : library.sources.get? path with
  | none => simp [hg] at h
  | some found =>
    exact Table.mem_keys_of_get? hg

/-- The library of the given texts: a path, the text of a grammar and, if there is one, the text of
a lexicon.  Of several texts for one path the last ones count. -/
def ofTexts (pathRule : PathRule) (texts : List (String × String × Option String)) : Library where
  pathRule
  sources := .ofList (texts.map fun (path, grammar, lexicon) =>
    (path, (Source.read grammar lexicon).mapError .undecodable))

end Library

end ModularGrammar
