/-
**Outlining a parfor: the kernel's parameters and the launch's arguments.**

Before `_create_gufunc_for_parfor_body` writes the text of the kernel stub it fixes everything the
kernel's signature and the host-side launch depend on: the parameters (the parfor's, plus the
variables of its loop bounds), split into inputs and outputs and reordered inputs first; the race
promotion of `ParforOffload.replaceVarWithArray`; the legal names of parameters and loop indices
with their typemap entries; the kernel's parameter types (0-d arrays made scalars, arrays tagged
with the global address space); the host-side argument types; the renamed copy of the loop body;
the sentinel name; and the set of arrays the body writes.  `generate_kernel_launch_ops` then sizes
the kernel-argument buffer from the host-side argument types.

The two sides are computed from different lists: the kernel from `param_types`, which went through
`to_scalar_from_0d`, and the launch from `func_arg_types`, which did not.

Main definitions:

* `ParforOffload.Parfor` — the parfor the lowering receives, with its parameter and race sets;
* `ParforOffload.createGufuncParams` — `_create_gufunc_for_parfor_body` up to the stub text;
* `ParforOffload.slot`, `ParforOffload.numExpandedArgs` — the launch's count of kernel-argument
  slots.

Main results:

* `ParforOffload.outlineParams_ok` — the shape of every successful outline;
* `ParforOffload.slot_funcArgTypes_eq` — launch and kernel agree on the slots of every argument
  that is not 0-d;
* `ParforOffload.numExpandedArgs_eq` — without a 0-d argument the launch sizes the
  kernel-argument buffer to the kernel's flattened argument count;
* `ParforOffload.numExpandedArgs_zeroDim` — with a 0-d input it does not.
-/

import ParforOffload.RacePromotion
import ParforOffload.Legalize

set_option autoImplicit false

namespace ParforOffload

/-! ### The parfor and the outline -/

/-- A parfor as the lowering receives it: `parfor.params` and `parfor.races` are sets. -/
structure Parfor where
  id : Nat
  loopNests : List LoopNest
  initBlock : Block
  loopBody : Blocks
  params : List String
  races : List String
  paramsNodup : params.Nodup
  racesNodup : races.Nodup

/-- `loop_indices`: the index variable of each loop nest, outermost first. -/
def Parfor.loopIndices (p : Parfor) : List String := p.loopNests.map LoopNest.indexVariable

/-- `parfor_params.add(v.name)` for a loop bound that is a variable. -/
def addBoundParam (ps : List String) : Bound → List String
  | .var x => if x ∈ ps then ps else ps ++ [x]
  | .const _ => ps

/-- The parfor's parameters with the variables of its loop bounds added. -/
def paramsWithBounds (p : Parfor) : List String :=
  p.loopNests.foldl (fun ps l => addBoundParam (addBoundParam ps l.start) l.stop) p.params

/-- `sorted(list(set(parfor_params) - set(parfor_outputs)))`. -/
def parforInputs (params outputs : List String) : List String :=
  (params.filter (· ∉ outputs)).insertionSort (· ≤ ·)

/-- `parfor_params = parfor_inputs + parfor_outputs`: the kernel's parameters, inputs first. -/
def reorderedParams (p : Parfor) (outputs : List String) : List String :=
  parforInputs (paramsWithBounds p) outputs ++ outputs

/-- `[typemap[v] for v in vs]`: a `KeyError` at the first name without a type. -/
def typesOf (tm : Typemap) : List String → Except String (List Ty)
  | [] => pure []
  | v :: vs =>
      match tm v with
      | some t => (t :: ·) <$> typesOf tm vs
      | none => throw ("KeyError: " ++ v)

/-- `address_space.GLOBAL`. -/
def globalAddrspace : Nat := 1

/-- `addrspace_from(params, GLOBAL)`: the global address space for a parameter whose type, made
scalar if 0-d, is an array, and none for the others. -/
def addrspaceFrom (ts : List Ty) : List (Option Nat) :=
  ts.map fun t => if t.toScalarFrom0d.isArray then some globalAddrspace else none

/-- Modelled from numba_dppy's `npytypes_array_to_dppy_array` (not under `src/`): it gives an array
parameter its address space, keeping its dtype, rank and layout, and fails on any other type. -/
def npytypesArrayToDppyArray : Ty → Nat → Except String Ty
  | .array d n l, a | .dppyArray d n l _, a => pure (.dppyArray d n l a)
  | _, _ => throw "Unsupported Numba type"

/-- One entry of `param_types_addrspaces`: converted if it has an address space. -/
def withAddrspace (t : Ty) : Option Nat → Except String Ty
  | some a => npytypesArrayToDppyArray t a
  | none => pure t

/-- `param_types_addrspaces`: each parameter type, converted where it has an address space. -/
def withAddrspaces : List Ty → List (Option Nat) → Except String (List Ty)
  | t :: ts, a :: as => do
      let t' ← withAddrspace t a
      (t' :: ·) <$> withAddrspaces ts as
  | ts, _ => pure ts

/-- What `_create_gufunc_for_parfor_body` has computed when it starts writing the stub. -/
structure Outline where
  /-- The promoted and renamed copy of the loop body. -/
  loopBody : Blocks
  /-- `parfor_args`: the host variables passed to the kernel, inputs then outputs. -/
  funcArgs : List String
  /-- The legal parameter names of the stub, in the same order. -/
  kernelParams : List String
  legalLoopIndices : List String
  paramTypes : List Ty
  paramTypesAddrspaces : List Ty
  funcArgTypes : List Ty
  sentinelName : String
  /-- `setitems`, returned as `modified_arrays`. -/
  modifiedArrays : List String
  /-- The typemap, calltypes and name counter afterwards. -/
  state : PromoteState

/-- A `KeyError` where the model has no value. -/
def orKeyError {α : Type} : Option α → Except String α
  | some a => .ok a
  | none => .error "KeyError"

@[simp] theorem orKeyError_eq_ok {α : Type} {x : Option α} {a : α} :
    orKeyError x = .ok a ↔ x = some a := by
  cases x <;> simp [orKeyError]

/-- `_create_gufunc_for_parfor_body` after its reduction check, up to the stub text: race
promotion, parameter order, legal names and their types, kernel and argument types, the renamed
body, the sentinel and the written arrays.  `outputs` is what `get_parfor_outputs` returns; `st`
holds the typemap of the lowerer's descriptor, its calltypes and numba's name counter. -/
def outlineParams (p : Parfor) (outputs : List String) (st : PromoteState) :
    Except String Outline := do
  let promoted ← orKeyError (replaceVarWithArray p.races (removeDels p.loopBody) st)
  let params := reorderedParams p outputs
  let loopIndices := p.loopIndices
  let argTypes₀ ← typesOf promoted.2.typemap params
  let legalParams ← orKeyError (legalizeNamesWithTypemap params promoted.2.typemap)
  let legalIndices ← orKeyError (legalizeNamesWithTypemap loopIndices legalParams.2)
  let funcArgTypes ← typesOf legalIndices.2 params
  let paramTypesAddrspaces ←
    withAddrspaces (funcArgTypes.map Ty.toScalarFrom0d) (addrspaceFrom argTypes₀)
  let body := replaceVarNames (replaceVarNames promoted.1 legalParams.1) legalIndices.1
  pure {
    loopBody := body
    funcArgs := params
    kernelParams := params.map legalizeName
    legalLoopIndices := loopIndices.map legalizeName
    paramTypes := funcArgTypes.map Ty.toScalarFrom0d
    paramTypesAddrspaces := paramTypesAddrspaces
    funcArgTypes := funcArgTypes
    sentinelName := getUnusedVarName "__sentinel__" (blocksVars body)
    modifiedArrays := findSetitemsBody body
    state := { promoted.2 with typemap := legalIndices.2 } }

/-- `_create_gufunc_for_parfor_body` up to the stub text: a parfor with reductions is refused
before any work (`redvars` is what `get_parfor_reductions` finds). -/
def createGufuncParams (p : Parfor) (outputs redvars : List String) (st : PromoteState) :
    Except String Outline :=
  if redvars = [] then outlineParams p outputs st
  else .error "Reductions are not yet supported via parfor"

/-! ### What a successful outline is made of -/

theorem legalizeNamesWithTypemap_eq_some {names : List String} {tm tm' : Typemap}
    {d : List (String × String)} :
    legalizeNamesWithTypemap names tm = some (d, tm') ↔
      d = legalizeNames names ∧ copyTypes (legalizeNames names) tm = some tm' := by
  unfold legalizeNamesWithTypemap
  cases copyTypes (legalizeNames names) tm <;> simp [eq_comm]

/-- How a successful outline was computed: its intermediate results, and the equations that tie
the outline to them. -/
structure OutlineSteps (p : Parfor) (outputs : List String) (st : PromoteState) (o : Outline) where
  promotedBody : Blocks
  promotedState : PromoteState
  argTypes₀ : List Ty
  paramTypemap : Typemap
  promote : replaceVarWithArray p.races (removeDels p.loopBody) st =
    some (promotedBody, promotedState)
  funcArgs : o.funcArgs = reorderedParams p outputs
  types₀ : typesOf promotedState.typemap o.funcArgs = .ok argTypes₀
  legalParams : copyTypes (legalizeNames o.funcArgs) promotedState.typemap = some paramTypemap
  legalIndices : copyTypes (legalizeNames p.loopIndices) paramTypemap =
    some o.state.typemap
  funcArgTypes : typesOf o.state.typemap o.funcArgs = .ok o.funcArgTypes
  paramTypesAddrspaces : withAddrspaces o.paramTypes (addrspaceFrom argTypes₀) =
    .ok o.paramTypesAddrspaces
  kernelParams : o.kernelParams = o.funcArgs.map legalizeName
  legalLoopIndices : o.legalLoopIndices = p.loopIndices.map legalizeName
  paramTypes : o.paramTypes = o.funcArgTypes.map Ty.toScalarFrom0d
  loopBody : o.loopBody = renameBlocks (legalRename p.loopIndices)
    (renameBlocks (legalRename o.funcArgs) promotedBody)
  sentinelName : o.sentinelName = getUnusedVarName "__sentinel__" (blocksVars o.loopBody)
  modifiedArrays : o.modifiedArrays = findSetitemsBody o.loopBody
  calltypes : o.state.calltypes = promotedState.calltypes
  counter : o.state.counter = promotedState.counter

/-- **The shape of every successful outline.** -/
theorem outlineParams_ok {p : Parfor} {outputs : List String} {st : PromoteState} {o : Outline}
    (h : outlineParams p outputs st = .ok o) : Nonempty (OutlineSteps p outputs st o) := by
  unfold outlineParams at h
  obtain ⟨⟨body₁, st₁⟩, h₁, h⟩ := Except.bind_eq_ok.1 h
  obtain ⟨ts₀, h₂, h⟩ := Except.bind_eq_ok.1 h
  obtain ⟨⟨d₁, tm₁⟩, h₃, h⟩ := Except.bind_eq_ok.1 h
  obtain ⟨⟨d₂, tm₂⟩, h₄, h⟩ := Except.bind_eq_ok.1 h
  obtain ⟨ts, h₅, h⟩ := Except.bind_eq_ok.1 h
  obtain ⟨ts', h₆, h⟩ := Except.bind_eq_ok.1 h
  simp only [orKeyError_eq_ok, legalizeNamesWithTypemap_eq_some] at h₁ h₃ h₄
  obtain ⟨rfl, h₃⟩ := h₃
  obtain ⟨rfl, h₄⟩ := h₄
  simp only [pure, Except.pure, Except.ok.injEq] at h
  subst h
  exact ⟨⟨body₁, st₁, ts₀, tm₁, h₁, rfl, h₂, h₃, h₄, h₅, h₆, rfl, rfl, rfl,
    by simp only [replaceVarNames_legalizeNames], rfl, rfl, rfl, rfl⟩⟩

/-- A successful outline only appends to the calltypes, and only the signatures of the stores race
promotion created. -/
theorem outlineParams_calltypes {p : Parfor} {outputs : List String} {st : PromoteState}
    {o : Outline} (h : outlineParams p outputs st = .ok o) :
    AppendsOnly IsSetitemSig st.calltypes o.state.calltypes := by
  obtain ⟨s⟩ := outlineParams_ok h
  obtain ⟨-, st₁, hg, -, hc, -⟩ := replaceVarWithArray_rewritten s.promote
  rw [s.calltypes, hc]
  exact hg.calltypes

/-! ### The launch's count of kernel arguments -/

/-- The kernel-argument slots `generate_kernel_launch_ops` reserves for an argument of type `t`:
an array of rank `r` is passed as `5 + 2 r` values, anything else as one. -/
def slot : Ty → Nat
  | .array _ n _ | .dppyArray _ n _ _ => 5 + 2 * n
  | _ => 1

/-- `num_expanded_args`, summed over the argument types. -/
def numExpandedArgs (argTypes : List Ty) : Nat := (argTypes.map slot).sum

theorem slot_toScalarFrom0d {t : Ty} (h : ¬ t.IsZeroDim) : slot t.toScalarFrom0d = slot t := by
  rw [Ty.toScalarFrom0d_of_not_isZeroDim h]

theorem slot_withAddrspace {t t' : Ty} {a : Option Nat}
    (h : withAddrspace t a = .ok t') : slot t' = slot t := by
  cases a <;> cases t <;>
    simp_all [withAddrspace, npytypesArrayToDppyArray, pure, Except.pure, throw, throwThe,
      MonadExceptOf.throw] <;> subst h <;> rfl

/-- Tagging parameter types with address spaces keeps every slot count. -/
theorem withAddrspaces_slots {ts ts' : List Ty} {as : List (Option Nat)}
    (h : withAddrspaces ts as = .ok ts') : List.Forall₂ (fun t t' => slot t' = slot t) ts ts' := by
  induction ts generalizing as ts' with
  | nil => cases as <;> simp_all [withAddrspaces, pure, Except.pure]
  | cons t ts ih =>
      cases as with
      | nil =>
          simp only [withAddrspaces, pure, Except.pure, Except.ok.injEq] at h
          subst h
          exact List.forall₂_same.2 fun _ _ => rfl
      | cons a as =>
          rw [withAddrspaces] at h
          obtain ⟨t'', h₁, h⟩ := Except.bind_eq_ok.1 h
          cases h₂ : withAddrspaces ts as with
          | error e => simp [h₂, Functor.map, Except.map] at h
          | ok ts'' =>
              simp only [h₂, Functor.map, Except.map, Except.ok.injEq] at h
              subst h
              exact .cons (slot_withAddrspace h₁) (ih h₂)

/-- **Launch and kernel agree on every argument that is not 0-d.**  For every successful outline,
the launch's `i`-th argument `func_args[i]` is bound to the kernel's `i`-th parameter, its legal
name; and the slots the launch reserves for it, from `func_arg_types[i]`, are the slots of the
kernel's `i`-th parameter type `param_types_addrspaces[i]` — unless `func_arg_types[i]` is 0-d. -/
theorem slot_funcArgTypes_eq {p : Parfor} {outputs : List String} {st : PromoteState}
    {o : Outline} (h : outlineParams p outputs st = .ok o) :
    o.kernelParams = o.funcArgs.map legalizeName ∧
      List.Forall₂ (fun t k => ¬ t.IsZeroDim → slot t = slot k)
        o.funcArgTypes o.paramTypesAddrspaces := by
  obtain ⟨s⟩ := outlineParams_ok h
  refine ⟨s.kernelParams, ?_⟩
  have hk := withAddrspaces_slots s.paramTypesAddrspaces
  rw [s.paramTypes, List.forall₂_map_left_iff] at hk
  exact hk.imp fun t k hs hz => by rw [hs, slot_toScalarFrom0d hz]

/-- A parfor `for i in prange(10): b[i] = a`. -/
def copyParfor : Parfor where
  id := 0
  loopNests := [⟨"i", .const 0, .const 10, .const 1⟩]
  initBlock := []
  loopBody := [(0, [.setItem "b" "i" (.var "a"), .jump 1]), (1, [])]
  params := ["a", "b"]
  races := []
  paramsNodup := by decide
  racesNodup := by decide

/-- Its typemap, with `a` a `float64` array of rank `r` and `b` a 1-d one. -/
def copyState (r : Nat) : PromoteState :=
  ⟨(Typemap.set (fun _ => none) "a" (.array (.scalar "float64") r "C")).set "b"
    (.array (.scalar "float64") 1 "C"), [], 0⟩

/-- A parfor `for i in prange(10): x = i` whose race variable `x` is also one of its parameters. -/
def raceParfor : Parfor where
  id := 0
  loopNests := [⟨"i", .const 0, .const 10, .const 1⟩]
  initBlock := []
  loopBody := [(0, [.assign "x" (.var "i"), .jump 1]), (1, [])]
  params := ["x"]
  races := ["x"]
  paramsNodup := by decide
  racesNodup := by decide

/-- Its typemap: `x : int64`. -/
def raceState : PromoteState := ⟨Typemap.set (fun _ => none) "x" (.scalar "int64"), [], 0⟩

theorem numExpandedArgs_eq_of_forall₂ {ts ks : List Ty}
    (hf : List.Forall₂ (fun t k => ¬ t.IsZeroDim → slot t = slot k) ts ks)
    (hz : ∀ t ∈ ts, ¬ t.IsZeroDim) : numExpandedArgs ts = numExpandedArgs ks := by
  induction hf with
  | nil => rfl
  | cons hr _ ih =>
      simp only [List.forall_mem_cons] at hz
      simp only [numExpandedArgs, List.map_cons, List.sum_cons] at ih ⊢
      rw [hr hz.1, ih hz.2]

/-- **The launch matches the kernel.**  For every successful outline, the launch's `i`-th
argument is bound to the kernel's `i`-th parameter, its legal name; and with no 0-d argument,
`num_expanded_args` is the kernel's flattened argument count. -/
theorem numExpandedArgs_eq {p : Parfor} {outputs : List String} {st : PromoteState}
    {o : Outline} (h : outlineParams p outputs st = .ok o)
    (hz : ∀ t ∈ o.funcArgTypes, ¬ t.IsZeroDim) :
    o.kernelParams = o.funcArgs.map legalizeName ∧
      numExpandedArgs o.funcArgTypes = numExpandedArgs o.paramTypesAddrspaces :=
  ⟨(slot_funcArgTypes_eq h).1, numExpandedArgs_eq_of_forall₂ (slot_funcArgTypes_eq h).2 hz⟩

theorem numExpandedArgs_eq_copy :
    ∃ o, outlineParams copyParfor ["b"] (copyState 1) = .ok o ∧
      (∀ t ∈ o.funcArgTypes, ¬ t.IsZeroDim) ∧
      (o.kernelParams = o.funcArgs.map legalizeName ∧
        numExpandedArgs o.funcArgTypes = numExpandedArgs o.paramTypesAddrspaces) :=
  ⟨_, rfl, by decide, @numExpandedArgs_eq copyParfor ["b"] (copyState 1) _ rfl (by decide)⟩

/-- For a 0-d input `a` the launch reserves 5 slots, the kernel's scalar parameter takes 1: the
buffer is sized 12 for a kernel of 8 flattened arguments. -/
theorem numExpandedArgs_zeroDim :
    ∃ o, createGufuncParams copyParfor ["b"] [] (copyState 0) = .ok o ∧
      o.kernelParams = ["a", "b"] ∧ numExpandedArgs o.funcArgTypes = 12 ∧
      numExpandedArgs o.paramTypesAddrspaces = 8 :=
  ⟨_, rfl, by decide, by decide, by decide⟩

end ParforOffload
