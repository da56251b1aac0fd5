import ModularGrammar.Proofs.Linking

/-!
# The Order of Renaming

The modules of a link are renamed in place, and all of them ask the same naming for qualifiers.
Neither lets one renaming be seen by another: a module is renamed from what it was when it was
loaded, and every qualifier has been given before the first of them begins.

## Architecture

1. `RenamingRun`: modules some of which have been renamed; one step, and steps in some order
2. `renamedAt`: where a run stands after some places
3. `step_renamedAt`, `inOrder_renamedAt`: one step and a whole run keep to it
-/

namespace ModularGrammar

/-- The renaming of modules in place, under way. -/
structure RenamingRun where
  /-- The modules; those that have been renamed stand in the places of what they were. -/
  modules : List Module
  naming : Naming

namespace RenamingRun

/-! ## Runs -/

def step (helper : String) (index : ExportIndex) (refusal : MacroReference.Refusal)
    (run : RenamingRun) (place : Nat) : Except LinkError RenamingRun :=
  match run.modules[place]? with
  | none => .ok run
  | some m =>
    match m.rename helper index run.naming refusal with
    | (.error e, _) => .error e
    | (.ok renamed, naming) => .ok ⟨run.modules.set place renamed, naming⟩

/-- The modules at some places are renamed, one after the other. -/
def inOrder (helper : String) (index : ExportIndex) (refusal : MacroReference.Refusal)
    (run : RenamingRun) (places : List Nat) : Except LinkError RenamingRun :=
  places.foldlM (step helper index refusal) run

/-- The run that begins once every module has its qualifier. -/
def start (modules : List Module) : RenamingRun :=
  ⟨modules, Naming.empty.register (modules.map Module.name)⟩

/-! ## Where a run stands -/

section Valid

variable {modules : List Module} (helper : String)

/-- The run after the modules at some places have been renamed. -/
def renamedAt (modules : List Module) (helper : String) (places : List Nat) : RenamingRun :=
  ⟨modules.mapIdx fun i m => if i ∈ places then m.linked modules helper else m,
    linkNaming modules⟩

theorem renamedAt_nil : renamedAt modules helper [] = start modules := by
  have hsame : (modules.mapIdx fun i m =>
      if i ∈ ([] : List Nat) then m.linked modules helper else m) = modules := by
    apply List.ext_getElem?
    intro i
    simp [List.getElem?_mapIdx]
  rw [renamedAt, hsame]
  rfl

/-- Once every place has been visited, all modules have been renamed. -/
theorem renamedAt_perm_range {order : List Nat}
    (horder : order.Perm (List.range modules.length)) :
    renamedAt modules helper order =
      ⟨modules.map (Module.linked modules helper), linkNaming modules⟩ := by
  have hall : (modules.mapIdx fun i m => if i ∈ order then m.linked modules helper else m) =
      modules.map (Module.linked modules helper) := by
    apply List.ext_getElem
    · simp
    · intro i hi _
      have hmem : i ∈ order := by
        rw [horder.mem_iff, List.mem_range]
        simpa using hi
      simp [hmem]
  rw [renamedAt, hall]

variable {refusal : MacroReference.Refusal}
  (hvalid : ExportIndex.problems (ExportIndex.ofModules modules) modules = [])
  (haccepted : NoneRefused refusal modules)

include hvalid haccepted

theorem step_renamedAt {places : List Nat} {place : Nat} (hplace : place < modules.length)
    (hnew : place ∉ places) :
    (renamedAt modules helper places).step helper (ExportIndex.ofModules modules) refusal place =
      .ok (renamedAt modules helper (places ++ [place])) := by
  -- no step before this one has touched the module
  have hmodule : (renamedAt modules helper places).modules[place]? = some modules[place] := by
    simp [renamedAt, hplace, hnew]
  have hrename : modules[place].rename helper (ExportIndex.ofModules modules)
      (renamedAt modules helper places).naming refusal =
        (.ok (modules[place].linked modules helper), linkNaming modules) :=
    rename_eq helper hvalid (List.getElem_mem hplace) (haccepted _ (List.getElem_mem hplace))
  have hset : (renamedAt modules helper places).modules.set place
      (modules[place].linked modules helper) =
        (renamedAt modules helper (places ++ [place])).modules := by
    apply List.ext_getElem?
    intro i
    rw [List.getElem?_set, renamedAt, renamedAt, List.getElem?_mapIdx, List.getElem?_mapIdx]
    -- at the place itself stands the renamed module, and no other place has changed
    by_cases hi : place = i
    · subst hi
      simp [hplace]
    · have hother : i ∈ places ++ [place] ↔ i ∈ places := by simp [Ne.symm hi]
      simp only [hi, if_false, hother]
  simp only [step, hmodule, hrename, hset]
  rfl

/-- The invariant is carried from place to place, none of which is visited twice. -/
theorem inOrder_renamedAt {order : List Nat} (places : List Nat)
    (hnodup : (places ++ order).Nodup) (hplaces : ∀ place ∈ order, place < modules.length) :
    (renamedAt modules helper places).inOrder helper (ExportIndex.ofModules modules) refusal order =
      .ok (renamedAt modules helper (places ++ order)) := by
  induction order generalizing places with
  | nil => simp [inOrder, pure, Except.pure]
  | cons place rest ih =>
    -- no place is renamed twice, so this one still has its old names
    have hnew : place ∉ places := by
      intro h
      exact (List.nodup_append.mp hnodup).2.2 place h place (List.mem_cons_self ..) rfl
    have hplace := hplaces place (List.mem_cons_self ..)
    have hstep := step_renamedAt helper hvalid haccepted hplace hnew
    have hrest := ih (places ++ [place]) (by simpa using hnodup) fun p hp =>
      hplaces p (List.mem_cons_of_mem _ hp)
    rw [List.append_assoc, List.singleton_append] at hrest
    rw [inOrder, List.foldlM_cons, hstep]
    exact hrest

end Valid

end RenamingRun

/-! ## Any order -/

/-- Valid modules to whose macros references can be found can be renamed in any order.  No step
fails, asks for a new qualifier or makes a difference to the renamed modules, and putting these
together is what linking does. -/
theorem renamed_in_any_order (helper entry : String) {modules : List Module}
    {index : ExportIndex} (hindex : ExportIndex.validate modules = .ok index)
    {refusal : MacroReference.Refusal} (haccepted : NoneRefused refusal modules) :
    ∃ renamed : List Module,
      (∀ order : List Nat, order.Perm (List.range modules.length) →
        (RenamingRun.start modules).inOrder helper index refusal order =
            .ok ⟨renamed, (RenamingRun.start modules).naming⟩ ∧
          ∀ front, front <+: order → ∃ partly,
            (RenamingRun.start modules).inOrder helper index refusal front =
              .ok ⟨partly, (RenamingRun.start modules).naming⟩) ∧
      Composition.compose helper entry renamed =
        (linkModules helper entry modules refusal).map LinkOutput.grammar := by
  obtain ⟨hvalid, rfl⟩ := ExportIndex.validate_eq_ok_iff.mp hindex
  -- every duplicate-free row of places is a run that stands where its places say
  have hrun : ∀ places : List Nat, places.Nodup → (∀ place ∈ places, place < modules.length) →
      (RenamingRun.start modules).inOrder helper (ExportIndex.ofModules modules) refusal places =
        .ok (RenamingRun.renamedAt modules helper places) := by
    intro places hnodup hplaces
    rw [← RenamingRun.renamedAt_nil helper]
    exact RenamingRun.inOrder_renamedAt helper hvalid haccepted [] hnodup hplaces
  refine ⟨modules.map (Module.linked modules helper), ?_, ?_⟩
  · intro order horder
    have hnodup : order.Nodup := horder.nodup_iff.mpr List.nodup_range
    have hplaces : ∀ place ∈ order, place < modules.length := by
      intro place hplace
      exact List.mem_range.mp (horder.mem_iff.mp hplace)
    constructor
    · rw [hrun order hnodup hplaces, RenamingRun.renamedAt_perm_range helper horder]
      rfl
    · intro front hfront
      refine ⟨_, hrun front (hfront.sublist.nodup hnodup) ?_⟩
      intro place hplace
      exact hplaces place (hfront.subset hplace)
  · rw [linkModules_of_valid hvalid haccepted]
    cases Composition.compose helper entry (modules.map (Module.linked modules helper)) with
    | error e => rfl
    | ok grammar => rfl

theorem collidingMacros_renamed_in_any_order :
    NoneRefused boundedRefusal collidingMacros ∧
    ∃ index, ExportIndex.validate collidingMacros = .ok index ∧ ∃ renamed,
      (RenamingRun.start collidingMacros).inOrder "wrap" index boundedRefusal [0, 1] =
          .ok ⟨renamed, (RenamingRun.start collidingMacros).naming⟩ ∧
        (RenamingRun.start collidingMacros).inOrder "wrap" index boundedRefusal [1, 0] =
          .ok ⟨renamed, (RenamingRun.start collidingMacros).naming⟩ ∧
        Composition.compose "wrap" "main" renamed =
          .error (.identifierCollision .lexerMacro "main__b__x" "main" "main__b") := by
  have haccepted : NoneRefused boundedRefusal collidingMacros := by decide
  have hindex : ExportIndex.validate collidingMacros =
      .ok (ExportIndex.ofModules collidingMacros) :=
    ExportIndex.validate_eq_ok_iff.mpr ⟨by decide, rfl⟩
  obtain ⟨renamed, horders, hcompose⟩ := renamed_in_any_order "wrap" "main" hindex haccepted
  rw [linkModules_collidingMacros] at hcompose
  exact ⟨haccepted, _, hindex, renamed, (horders [0, 1] (by decide)).1,
    (horders [1, 0] (by decide)).1, hcompose⟩

end ModularGrammar
