/-
**Lowering with a fallback: `DPPYLower.lower` and what it leaves behind.**

`DPPYLower.lower` first lowers the function with the device lowerer.  Its context has a
`lower_extensions` table only when it is numba's `CPUContext` (dppy_lowerer.py:1343), which is then
the CPU lowerer's context as well (:1275-1279); there the entry for parfors is saved and
`lower_parfor_rollback` installed, so that each parfor is outlined and compiled as a kernel by
`_lower_parfor_gufunc`.  If anything raises, the CPU lowerer — working on deep copies of the
descriptor and the IR — puts numba's `_lower_parfor_parallel` in its context's table and lowers the
function again, when `FALLBACK_ON_CPU` is 1; otherwise the exception propagates.

The device attempt changes state that outlives it: the handler table; the global
`sequential_parfor_lowering`; the parfor's flags, since `copy.copy(parfor.flags)` shares their
values, so that `error_model = "numpy"` and `noalias = True` are written to the flags the parfor
keeps and `noalias` is put back only once the kernel compiled; the typemap of the descriptor it was
handed (swapped for a copy during each parfor, and restored only when the parfor's lowering
completes); that descriptor's calltypes, to which race promotion and the DUFunc inliner add
signatures; and the shared `parfor_diagnostics`.  The run is a state machine over
`ParforOffload.Host`; where it raises is a parameter, `ParforOffload.Fault`, so that the theorems
hold for every run.

Main definitions:

* `ParforOffload.lowerParforGufunc` — `_lower_parfor_gufunc`, with its failure points;
* `ParforOffload.lowerItems` — the device lowering of a function, item by item;
* `ParforOffload.lower` — `DPPYLower.lower`.

Main results:

* `ParforOffload.lower_sequentialParforLowering_flags` — every run leaves
  `sequential_parfor_lowering` false and touches only the flags of its parfors, where it sets at
  most `error_model` to `"numpy"` and `noalias`;
* `ParforOffload.lower_ok_device` — a run that succeeds on the device restores the handler table
  and every `noalias`;
* `ParforOffload.lower_ext_eq_iff` — from a state numba can hand over, the handler table is back as
  it was exactly unless the run raised out of a `CPUContext` with `FALLBACK_ON_CPU` other than 1;
* `ParforOffload.lower_calltypes_diagnostics` — every run only appends to the calltypes, and only
  the signatures of race promotion's stores and of the inlined DUFuncs, and to the diagnostics only
  entries of its parfors and the kernel's device;
* `ParforOffload.lower_fallback_calltypes_diagnostics` — the same for a run whose device attempt
  raised, whose diagnostics gain only entries of its parfors;
  `ParforOffload.lower_fallback_keeps_promotion` shows such a run that keeps the promoted typemap
  and those entries;
* `ParforOffload.lower_raise_leaves_rollback` — runs on a `CPUContext`: a kernel that fails to
  compile leaves `lower_parfor_rollback` installed when `FALLBACK_ON_CPU` is 0, and every run
  leaves the parfor's flags changed.
-/

import ParforOffload.Outline

set_option autoImplicit false

namespace ParforOffload

/-! ### The state the lowering changes -/

/-- A handler of parfor nodes, as a `lower_extensions[Parfor]` entry holds it. -/
inductive Handler where
  /-- numba's `_lower_parfor_parallel`. -/
  | parallel
  /-- `lower_parfor_rollback`. -/
  | rollback
  /-- Any other handler. -/
  | other (n : Nat)
  deriving DecidableEq, Repr

/-- An entry written to `metadata["parfor_diagnostics"]`. -/
inductive DiagWrite where
  /-- `hoist_info[parfor_id]`. -/
  | hoist (parforId : Nat)
  /-- `extra_info[key] = value`. -/
  | extra (key value : String)
  deriving DecidableEq, Repr

/-- Modelled from numba's `Flags` (a `TargetConfig`, not under src/): the two options the lowering
writes.  A `Flags` object keeps its values in one dictionary, which `copy.copy` shares, so that a
write to the copy is a write to the original. -/
structure Flags where
  /-- `noalias`. -/
  noalias : Bool
  /-- `error_model`. -/
  errorModel : String
  deriving DecidableEq, Repr

/-- `f'` is `f` after at most the lowering's writes: `error_model = "numpy"`, and `noalias` set. -/
def Flags.Written (f f' : Flags) : Prop :=
  (f'.errorModel = f.errorModel ∨ f'.errorModel = "numpy") ∧
    (f'.noalias = f.noalias ∨ f'.noalias = true)

theorem Flags.Written.refl (f : Flags) : f.Written f := ⟨.inl rfl, .inl rfl⟩

theorem Flags.Written.trans {f₁ f₂ f₃ : Flags} (h₁ : f₁.Written f₂) (h₂ : f₂.Written f₃) :
    f₁.Written f₃ := by
  obtain ⟨he | he, hn | hn⟩ := h₂ <;> simp only [Flags.Written, he, hn, h₁.1, h₁.2, or_true, and_self]

/-- What the lowering can change and others can see. -/
structure Host where
  /-- `lower_extensions[Parfor]` of each target context, by its number. -/
  ext : Nat → Option Handler
  /-- `numba.parfors.parfor.sequential_parfor_lowering`. -/
  sequentialParforLowering : Bool
  /-- The `Flags` objects, by number: the `parfor.flags` of a parfor is one of them. -/
  flags : Nat → Flags
  /-- The typemap of the descriptor handed to `DPPYLower`. -/
  typemap : Typemap
  /-- Its calltypes. -/
  calltypes : List (Stmt × Sig)
  /-- numba's unique-name counter. -/
  counter : Nat
  /-- The entries of `parfor_diagnostics`, in the order they were written. -/
  diagnostics : List DiagWrite

/-- The `Flags` object `i` after writes through a `copy.copy` of it. -/
def Host.setFlags (h : Host) (i : Nat) (f : Flags) : Host :=
  { h with flags := Function.update h.flags i f }

/-- `flags.noalias = b`, on a copy of the `Flags` object `i`. -/
def Host.setNoalias (h : Host) (i : Nat) (b : Bool) : Host :=
  h.setFlags i { h.flags i with noalias := b }

/-- `flags.error_model = m`, on a copy of the `Flags` object `i`. -/
def Host.setErrorModel (h : Host) (i : Nat) (m : String) : Host :=
  h.setFlags i { h.flags i with errorModel := m }

/-- `numba.parfors.parfor.sequential_parfor_lowering = b`. -/
def Host.setSeq (h : Host) (b : Bool) : Host :=
  { h with sequentialParforLowering := b }

/-- The setting of a run. -/
structure LowerConfig where
  /-- The device lowerer's target context. -/
  gpuCtx : Nat
  /-- The CPU lowerer's: `context.cpu_context` for a `DPPYTargetContext`, else the same. -/
  cpuCtx : Nat
  /-- `config.FALLBACK_ON_CPU`. -/
  fallbackOnCpu : Nat
  /-- The name of the current SYCL device. -/
  device : String

/-- A state numba hands over: `CPUContext.init` put `_lower_parfor_parallel` in the CPU lowerer's
table, and a device context other than that one is a `DPPYTargetContext`, which has no
`lower_extensions` (dppy_lowerer.py:1343). -/
structure LowerConfig.Receivable (cfg : LowerConfig) (h : Host) : Prop where
  cpu : h.ext cfg.cpuCtx = some .parallel
  dppy : cfg.gpuCtx ≠ cfg.cpuCtx → h.ext cfg.gpuCtx = none

/-- What numba gives for a parfor besides the node. -/
structure ParforInfo where
  /-- `get_parfor_outputs`. -/
  outputs : List String
  /-- `get_parfor_reductions`. -/
  redvars : List String
  /-- `bool(alias_map)` after `find_potential_aliases_parfor`. -/
  hasAliases : Bool
  /-- Which `Flags` object `parfor.flags` is; numba hands the same one to every parfor of a
  function. -/
  flags : Nat
  /-- Modelled from numba's `inline_closure_call`, which `dufunc_inliner` (not under src/) calls
  for each DUFunc call of the kernel and which runs `typemap.update(f_typemap)` and
  `calltypes.update(f_calltypes)`: the callee's types and calltypes, call by call. -/
  inlined : List (List (String × Ty) × List (Stmt × Sig))

/-- What the device lowerer lowers: the function's items in order. -/
inductive LowerItem where
  /-- An instruction other than a parfor. -/
  | inst
  /-- A parfor. -/
  | parfor (p : Parfor) (info : ParforInfo)

/-- Where the device attempt raises, if it does; `k` numbers the items of the function. -/
inductive Fault where
  /-- Lowering the instruction `k`. -/
  | inst (k : Nat)
  /-- The parfor `k`: its init block, race variables, aliases or outputs, before its flags. -/
  | initBlock (k : Nat)
  /-- The parfor `k`: the types of its index variables, once `flags.error_model` is written. -/
  | indexTypes (k : Nat)
  /-- The parfor `k`: building the kernel stub after the outline's parameters. -/
  | stub (k : Nat)
  /-- The parfor `k`: splicing the loop body into the stub, after the diagnostics. -/
  | splice (k : Nat)
  /-- The parfor `k`: `remove_dead` or the DUFunc inliner, before it inlines the call `n`. -/
  | inline (k n : Nat)
  /-- The parfor `k`: compiling the kernel. -/
  | kernel (k : Nat)
  /-- The parfor `k`: the shape signature or the launch code. -/
  | launch (k : Nat)
  /-- The device query for the diagnostics after the function was lowered. -/
  | query
  deriving DecidableEq, Repr

/-! ### The lowering -/

/-- `dufunc_inliner(gufunc_ir, lowerer.fndesc.calltypes, typemap, ...)` from the DUFunc call `n` of
the kernel on: each callee's types go to the typemap and its calltypes to the descriptor's. -/
def inlineDufuncs (fault : Option Fault) (k : Nat) :
    Nat → List (List (String × Ty) × List (Stmt × Sig)) → Host → Except Host Host
  | _, [], h => .ok h
  | n, (tys, cts) :: rest, h =>
      if fault = some (.inline k n) then .error h else
      inlineDufuncs fault k (n + 1) rest
        { h with
          typemap := tys.foldl (fun tm e => tm.set e.1 e.2) h.typemap
          calltypes := h.calltypes ++ cts }

/-- The end of `_create_gufunc_for_parfor_body` (dppy_lowerer.py:635-677): `flags.noalias` set
when the parfor has no aliases, `remove_dead`, the DUFunc inliner, the kernel's compilation, and
`noalias` put back only once the kernel compiled. -/
def compileKernel (fault : Option Fault) (k : Nat) (info : ParforInfo) (h : Host) :
    Except Host Host :=
  let oldAlias := (h.flags info.flags).noalias
  (inlineDufuncs fault k 0 info.inlined
      (if info.hasAliases then h else h.setNoalias info.flags true)).bind fun h₂ =>
    if fault = some (.kernel k) then .error h₂ else .ok (h₂.setNoalias info.flags oldAlias)

/-- `_create_gufunc_for_parfor_body` from the outline's parameters on, as far as this state goes:
the outline's typemap and calltypes, the diagnostics, and the kernel's compilation. -/
def createGufuncBody (cfg : LowerConfig) (fault : Option Fault) (k : Nat) (p : Parfor)
    (info : ParforInfo) (h : Host) : Except Host Host :=
  match createGufuncParams p info.outputs info.redvars ⟨h.typemap, h.calltypes, h.counter⟩ with
  | .error _ => .error h
  | .ok o =>
      let h₁ := { h with
        typemap := o.state.typemap
        calltypes := o.state.calltypes
        counter := o.state.counter }
      if fault = some (.stub k) then .error h₁ else
      let h₂ := { h₁ with
        diagnostics := h₁.diagnostics ++ [DiagWrite.hoist p.id, .extra (toString p.id) cfg.device] }
      if fault = some (.splice k) then .error h₂ else compileKernel fault k info h₂

/-- `_lower_parfor_gufunc(lowerer, parfor)` for the item `k`: the typemap swapped for a copy,
`error_model` written to the parfor's flags, `sequential_parfor_lowering` set around
`_create_gufunc_for_parfor_body` and reset in its `finally`, and the original typemap put back at
the end.  A raise leaves the state where it happened (`.error`). -/
def lowerParforGufunc (cfg : LowerConfig) (fault : Option Fault) (k : Nat) (p : Parfor)
    (info : ParforInfo) (h₀ : Host) : Except Host Host :=
  if fault = some (.initBlock k) then .error h₀ else
  let h := h₀.setErrorModel info.flags "numpy"
  if fault = some (.indexTypes k) then .error h else
  match createGufuncBody cfg fault k p info (h.setSeq true) with
  | .error h' => .error (h'.setSeq false)
  | .ok h' =>
      if fault = some (.launch k) then .error (h'.setSeq false)
      else .ok { h'.setSeq false with typemap := h₀.typemap }

/-- The device lowerer over the items from number `k` on: a parfor goes to the handler the device
context holds — `lower_parfor_rollback` runs `_lower_parfor_gufunc` and re-raises what it
raises, another handler (never there after `installRollback`) lowers it without touching this
state, and a context without a table raises. -/
def lowerItems (cfg : LowerConfig) (fault : Option Fault) :
    Nat → List LowerItem → Host → Except Host Host
  | _, [], h => .ok h
  | k, .inst :: rest, h =>
      if fault = some (.inst k) then .error h else lowerItems cfg fault (k + 1) rest h
  | k, .parfor p info :: rest, h =>
      match h.ext cfg.gpuCtx with
      | some .rollback =>
          (lowerParforGufunc cfg fault k p info h).bind (lowerItems cfg fault (k + 1) rest)
      | some _ => lowerItems cfg fault (k + 1) rest h
      | none => .error h

/-- Whether `extra_info` is empty. -/
def noExtraInfo (ds : List DiagWrite) : Bool :=
  ds.all fun d => match d with | .extra .. => false | .hoist _ => true

/-- The end of the device attempt: the kernel's device in `extra_info` when nothing else is
there, then the saved handler put back. -/
def finishDevice (cfg : LowerConfig) (fault : Option Fault) (saved : Option Handler) (h : Host) :
    Except Host Host :=
  let restore := fun h : Host => match saved with
    | some old => { h with ext := Function.update h.ext cfg.gpuCtx (some old) }
    | none => h
  if noExtraInfo h.diagnostics then
    if fault = some .query then .error h
    else .ok (restore { h with diagnostics := h.diagnostics ++ [DiagWrite.extra "kernel" cfg.device] })
  else .ok (restore h)

/-- The table after `context.lower_extensions[Parfor] = lower_parfor_rollback`, which is reached
only when reading the entry to save succeeded. -/
def installRollback (cfg : LowerConfig) (h : Host) : Host :=
  match h.ext cfg.gpuCtx with
  | some _ => { h with ext := Function.update h.ext cfg.gpuCtx (some .rollback) }
  | none => h

/-- The `try` block of `DPPYLower.lower`: the device lowering and its end. -/
def deviceAttempt (cfg : LowerConfig) (fault : Option Fault) (items : List LowerItem)
    (h₀ : Host) : Except Host Host :=
  (lowerItems cfg fault 0 items (installRollback cfg h₀)).bind
    (finishDevice cfg fault (h₀.ext cfg.gpuCtx))

/-- The `except` block: with `FALLBACK_ON_CPU == 1`, numba's handler is put in the CPU context's
table and the CPU lowerer runs on its copies; otherwise the exception propagates. -/
def fallback (cfg : LowerConfig) (cpuRaises : Bool) (h : Host) : Except Host Host :=
  if cfg.fallbackOnCpu = 1 then
    let h' := { h with ext := Function.update h.ext cfg.cpuCtx (some .parallel) }
    if cpuRaises then .error h' else .ok h'
  else .error h

/-- `DPPYLower.lower`.  The CPU lowerer works on deep copies of the descriptor and the IR, its
parfors' flags among them, so of this state it touches only its context's handler; `cpuRaises` says
whether its lowering raises. -/
def lower (cfg : LowerConfig) (fault : Option Fault) (cpuRaises : Bool) (items : List LowerItem)
    (h₀ : Host) : Except Host Host :=
  match deviceAttempt cfg fault items h₀ with
  | .ok h => .ok h
  | .error h => fallback cfg cpuRaises h

/-- The state a run ends in, whether it returns or raises. -/
def finalState : Except Host Host → Host
  | .ok h => h
  | .error h => h

@[simp] theorem finalState_ok (h : Host) : finalState (.ok h) = h := rfl

@[simp] theorem finalState_error (h : Host) : finalState (.error h) = h := rfl

/-! ### What a stretch of the lowering may do -/

/-- A diagnostics entry the device lowering of `items` may write: the hoisting and the device of
one of its parfors. -/
def ParforDiag (cfg : LowerConfig) (items : List LowerItem) (d : DiagWrite) : Prop :=
  ∃ p info, LowerItem.parfor p info ∈ items ∧
    (d = .hoist p.id ∨ d = .extra (toString p.id) cfg.device)

/-- A calltype the device lowering of `items` may add: that of a store race promotion created, or
one the DUFunc inliner copied for one of its parfors. -/
def AddedCalltype (items : List LowerItem) (c : Stmt × Sig) : Prop :=
  IsSetitemSig c ∨ ∃ p info, LowerItem.parfor p info ∈ items ∧ ∃ b ∈ info.inlined, c ∈ b.2

/-- The `Flags` object of one of the parfors of `items`. -/
def FlagsOf (items : List LowerItem) (i : Nat) : Prop :=
  ∃ p info, LowerItem.parfor p info ∈ items ∧ info.flags = i

/-- What a stretch of the lowering may do to the state outside the handler tables, from `h` to
`h'`, when the diagnostics entries it writes satisfy `P`. -/
structure LowerEffect (items : List LowerItem) (P : DiagWrite → Prop) (h h' : Host) : Prop where
  /-- Every `Flags` object gets at most the lowering's writes, -/
  flags : ∀ i, (h.flags i).Written (h'.flags i)
  /-- and only those of the parfors of `items` any. -/
  flags_frame : ∀ i, ¬ FlagsOf items i → h'.flags i = h.flags i
  /-- `sequential_parfor_lowering` is false again if it was. -/
  seq : h.sequentialParforLowering = false → h'.sequentialParforLowering = false
  /-- The calltypes only gain those race promotion and the inliner add. -/
  calltypes : AppendsOnly (AddedCalltype items) h.calltypes h'.calltypes
  /-- The diagnostics only gain entries satisfying `P`. -/
  diagnostics : AppendsOnly P h.diagnostics h'.diagnostics

namespace LowerEffect

variable {items items' : List LowerItem} {P Q : DiagWrite → Prop} {h h₁ h₂ h₃ : Host}

theorem refl (h : Host) : LowerEffect items P h h :=
  ⟨fun _ => .refl _, fun _ _ => rfl, id, .refl _, .refl _⟩

theorem trans (e₁ : LowerEffect items P h₁ h₂) (e₂ : LowerEffect items P h₂ h₃) :
    LowerEffect items P h₁ h₃ :=
  ⟨fun i => (e₁.flags i).trans (e₂.flags i), fun i hi => (e₂.flags_frame i hi).trans
    (e₁.flags_frame i hi), e₂.seq ∘ e₁.seq, e₁.calltypes.trans e₂.calltypes,
    e₁.diagnostics.trans e₂.diagnostics⟩

theorem mono (e : LowerEffect items P h₁ h₂) (hsub : items ⊆ items') (hPQ : ∀ d, P d → Q d) :
    LowerEffect items' Q h₁ h₂ :=
  ⟨e.flags, fun i hi => e.flags_frame i fun ⟨p, info, hm, hf⟩ => hi ⟨p, info, hsub hm, hf⟩, e.seq,
    e.calltypes.mono fun _ hc => hc.imp_right fun ⟨p, info, hm, hb⟩ => ⟨p, info, hsub hm, hb⟩,
    e.diagnostics.mono hPQ⟩

/-- A stretch that leaves the flags and `sequential_parfor_lowering` alone. -/
theorem of_flags_eq (hf : h₂.flags = h₁.flags)
    (hs : h₂.sequentialParforLowering = h₁.sequentialParforLowering)
    (hc : AppendsOnly (AddedCalltype items) h₁.calltypes h₂.calltypes)
    (hd : AppendsOnly P h₁.diagnostics h₂.diagnostics) : LowerEffect items P h₁ h₂ :=
  ⟨fun _ => hf ▸ .refl _, fun i _ => congrFun hf i, fun h => hs.trans h, hc, hd⟩

/-- A write to the flags of a parfor of `items`. -/
theorem setFlags {i : Nat} {f : Flags} (hi : FlagsOf items i) (hw : (h.flags i).Written f) :
    LowerEffect items P h (h.setFlags i f) := by
  refine ⟨fun j => ?_, fun j hj => ?_, id, .refl _, .refl _⟩
  · by_cases hji : j = i
    · subst hji
      simpa [Host.setFlags] using hw
    · simpa [Host.setFlags, hji] using Flags.Written.refl _
  · have hji : j ≠ i := fun e => hj (e ▸ hi)
    simp [Host.setFlags, hji]

theorem setErrorModel {i : Nat} (hi : FlagsOf items i) :
    LowerEffect items P h (h.setErrorModel i "numpy") :=
  .setFlags hi ⟨.inr rfl, .inl rfl⟩

theorem setNoalias {i : Nat} (hi : FlagsOf items i) : LowerEffect items P h (h.setNoalias i true) :=
  .setFlags hi ⟨.inl rfl, .inr rfl⟩

/-- Entries written to the diagnostics. -/
theorem writeDiag {ds : List DiagWrite} (hd : ∀ d ∈ ds, P d) :
    LowerEffect items P h { h with diagnostics := h.diagnostics ++ ds } :=
  .of_flags_eq rfl rfl (.refl _) ⟨ds, rfl, hd⟩

/-- `flags.noalias = old_alias`, where `old_alias` is what it was at the start of the stretch. -/
theorem restoreNoalias (e : LowerEffect items P h₁ h₂) (i : Nat) :
    LowerEffect items P h₁ (h₂.setNoalias i (h₁.flags i).noalias) := by
  refine ⟨fun j => ?_, fun j hj => ?_, e.seq, e.calltypes, e.diagnostics⟩
  · by_cases hji : j = i
    · subst hji
      simpa [Host.setNoalias, Host.setFlags, Flags.Written] using (e.flags j).1
    · simpa [Host.setNoalias, Host.setFlags, hji] using e.flags j
  · by_cases hji : j = i
    · subst hji
      simp [Host.setNoalias, Host.setFlags, e.flags_frame j hj]
    · simpa [Host.setNoalias, Host.setFlags, hji] using e.flags_frame j hj

/-- A stretch run with `sequential_parfor_lowering` set, and reset in a `finally`. -/
theorem bracket (e : LowerEffect items P (h₁.setSeq true) h₂) :
    LowerEffect items P h₁ (h₂.setSeq false) :=
  ⟨e.flags, e.flags_frame, fun _ => rfl, e.calltypes, e.diagnostics⟩

end LowerEffect

/-- What the device lowering of `items` may do: what `LowerEffect` allows with entries of its
parfors, and no handler table touched. -/
structure DeviceEffect (cfg : LowerConfig) (items : List LowerItem) (h h' : Host)
    extends LowerEffect items (ParforDiag cfg items) h h' : Prop where
  /-- No handler table is touched. -/
  ext : h'.ext = h.ext

namespace DeviceEffect

variable {cfg : LowerConfig} {items items' : List LowerItem} {h₁ h₂ h₃ : Host}

theorem refl (h : Host) : DeviceEffect cfg items h h := ⟨.refl h, rfl⟩

theorem trans (e₁ : DeviceEffect cfg items h₁ h₂) (e₂ : DeviceEffect cfg items h₂ h₃) :
    DeviceEffect cfg items h₁ h₃ :=
  ⟨e₁.toLowerEffect.trans e₂.toLowerEffect, e₂.ext.trans e₁.ext⟩

theorem mono (e : DeviceEffect cfg items h₁ h₂) (hsub : items ⊆ items') :
    DeviceEffect cfg items' h₁ h₂ :=
  ⟨e.toLowerEffect.mono hsub fun _ ⟨p, info, hm, hd⟩ => ⟨p, info, hsub hm, hd⟩, e.ext⟩

end DeviceEffect

/-! ### One parfor -/

theorem createGufuncParams_calltypes {p : Parfor} {outputs redvars : List String}
    {st : PromoteState} {o : Outline} (h : createGufuncParams p outputs redvars st = .ok o) :
    AppendsOnly IsSetitemSig st.calltypes o.state.calltypes := by
  unfold createGufuncParams at h
  split_ifs at h
  exact outlineParams_calltypes h

/-- The inliner changes only the typemap and the calltypes, and these only by the calltypes of the
calls it inlines. -/
theorem inlineDufuncs_final (fault : Option Fault) (k : Nat) :
    ∀ (n : Nat) (batches : List (List (String × Ty) × List (Stmt × Sig))) (h : Host),
      ∃ tm cts, finalState (inlineDufuncs fault k n batches h) =
        { h with typemap := tm, calltypes := h.calltypes ++ cts } ∧
        ∀ c ∈ cts, ∃ b ∈ batches, c ∈ b.2
  | _, [], h => ⟨h.typemap, [], by simp [inlineDufuncs], by simp⟩
  | n, (tys, cts) :: rest, h => by
      unfold inlineDufuncs
      split_ifs
      · exact ⟨h.typemap, [], by simp, by simp⟩
      · obtain ⟨tm, cts', he, hc⟩ := inlineDufuncs_final fault k (n + 1) rest
          { h with
            typemap := tys.foldl (fun tm e => tm.set e.1 e.2) h.typemap
            calltypes := h.calltypes ++ cts }
        refine ⟨tm, cts ++ cts', by simpa using he, fun c hc' => ?_⟩
        rcases List.mem_append.1 hc' with hc' | hc'
        · exact ⟨(tys, cts), List.mem_cons_self _ _, hc'⟩
        · obtain ⟨b, hb, hcb⟩ := hc c hc'
          exact ⟨b, List.mem_cons_of_mem _ hb, hcb⟩

theorem inlineDufuncs_effect {items : List LowerItem} {P : DiagWrite → Prop} {p : Parfor}
    {info : ParforInfo} (hm : LowerItem.parfor p info ∈ items) (fault : Option Fault) (k : Nat)
    (h : Host) :
    LowerEffect items P h (finalState (inlineDufuncs fault k 0 info.inlined h)) ∧
      (finalState (inlineDufuncs fault k 0 info.inlined h)).ext = h.ext := by
  obtain ⟨tm, cts, he, hc⟩ := inlineDufuncs_final fault k 0 info.inlined h
  rw [he]
  exact ⟨.of_flags_eq rfl rfl ⟨cts, rfl, fun c hc' => .inr ⟨p, info, hm, hc c hc'⟩⟩ (.refl _), rfl⟩

/-- **The kernel's compilation**, whether it returns or raises. -/
theorem compileKernel_effect {items : List LowerItem} {P : DiagWrite → Prop} {p : Parfor}
    {info : ParforInfo} (hm : LowerItem.parfor p info ∈ items) (fault : Option Fault) (k : Nat)
    (h : Host) :
    LowerEffect items P h (finalState (compileKernel fault k info h)) ∧
      (finalState (compileKernel fault k info h)).ext = h.ext := by
  unfold compileKernel
  generalize hh₁ : (if info.hasAliases then h else h.setNoalias info.flags true) = h₁
  have e₁ : LowerEffect items P h h₁ := by
    subst hh₁
    split
    · exact .refl h
    · exact .setNoalias ⟨p, info, hm, rfl⟩
  have hx₁ : h₁.ext = h.ext := by
    subst hh₁
    split <;> rfl
  obtain ⟨e₂, hx₂⟩ := @inlineDufuncs_effect items P p info hm fault k h₁
  cases hi : inlineDufuncs fault k 0 info.inlined h₁ <;> rw [hi] at e₂ hx₂
  · exact ⟨e₁.trans e₂, hx₂.trans hx₁⟩
  · simp only [Except.bind]
    split_ifs
    · exact ⟨e₁.trans e₂, hx₂.trans hx₁⟩
    · exact ⟨(e₁.trans e₂).restoreNoalias info.flags, hx₂.trans hx₁⟩

/-- **The outline and the kernel's compilation**, whether they return or raise. -/
theorem createGufuncBody_effect (cfg : LowerConfig) (fault : Option Fault) (k : Nat) (p : Parfor)
    (info : ParforInfo) (h : Host) :
    DeviceEffect cfg [.parfor p info] h (finalState (createGufuncBody cfg fault k p info h)) := by
  have hm : LowerItem.parfor p info ∈ [.parfor p info] := List.mem_singleton_self _
  unfold createGufuncBody
  cases ho : createGufuncParams p info.outputs info.redvars ⟨h.typemap, h.calltypes, h.counter⟩ with
  | error _ => exact .refl h
  | ok o =>
      have e₁ : LowerEffect [.parfor p info] (ParforDiag cfg [.parfor p info]) h
          { h with typemap := o.state.typemap, calltypes := o.state.calltypes,
                   counter := o.state.counter } :=
        .of_flags_eq rfl rfl ((createGufuncParams_calltypes ho).mono fun _ => .inl) (.refl _)
      have e₂ := e₁.trans (.writeDiag fun d
        (hd : d ∈ [DiagWrite.hoist p.id, .extra (toString p.id) cfg.device]) =>
          ⟨p, info, hm, by simpa using hd⟩)
      simp only
      split_ifs
      · exact ⟨e₁, rfl⟩
      · exact ⟨e₂, rfl⟩
      · obtain ⟨e₃, hx⟩ := compileKernel_effect hm fault k _
        exact ⟨e₂.trans e₃, hx⟩

/-- **One parfor's lowering**, whether it returns or raises. -/
theorem lowerParforGufunc_effect (cfg : LowerConfig) (fault : Option Fault) (k : Nat)
    (p : Parfor) (info : ParforInfo) (h₀ : Host) :
    DeviceEffect cfg [.parfor p info] h₀
      (finalState (lowerParforGufunc cfg fault k p info h₀)) := by
  have e : LowerEffect [.parfor p info] (ParforDiag cfg [.parfor p info]) h₀
      (h₀.setErrorModel info.flags "numpy") :=
    .setErrorModel ⟨p, info, List.mem_singleton_self _, rfl⟩
  have eb := createGufuncBody_effect cfg fault k p info
    ((h₀.setErrorModel info.flags "numpy").setSeq true)
  unfold lowerParforGufunc
  by_cases hi : fault = some (.initBlock k)
  · rw [if_pos hi]
    exact .refl h₀
  rw [if_neg hi]
  dsimp only
  by_cases hx : fault = some (.indexTypes k)
  · rw [if_pos hx]
    exact ⟨e, rfl⟩
  rw [if_neg hx]
  split <;> rename_i h' hb <;> rw [hb] at eb
  · exact ⟨e.trans eb.toLowerEffect.bracket, eb.ext⟩
  · split_ifs
    · exact ⟨e.trans eb.toLowerEffect.bracket, eb.ext⟩
    · exact ⟨e.trans (eb.toLowerEffect.bracket.trans (.of_flags_eq rfl rfl (.refl _) (.refl _))),
        eb.ext⟩

/-- A kernel that compiled has `noalias` back where it was. -/
theorem compileKernel_ok_noalias {fault : Option Fault} {k : Nat} {info : ParforInfo} {h h' : Host}
    (he : compileKernel fault k info h = .ok h') :
    (h'.flags info.flags).noalias = (h.flags info.flags).noalias := by
  unfold compileKernel at he
  generalize (if info.hasAliases then h else h.setNoalias info.flags true) = h₁ at he
  cases hi : inlineDufuncs fault k 0 info.inlined h₁ with
  | error _ => simp [hi, Except.bind] at he
  | ok h₂ =>
      simp only [hi, Except.bind] at he
      split_ifs at he
      cases he
      simp [Host.setNoalias, Host.setFlags]

theorem createGufuncBody_ok_noalias {cfg : LowerConfig} {fault : Option Fault} {k : Nat}
    {p : Parfor} {info : ParforInfo} {h h' : Host}
    (he : createGufuncBody cfg fault k p info h = .ok h') :
    (h'.flags info.flags).noalias = (h.flags info.flags).noalias := by
  unfold createGufuncBody at he
  split at he
  · cases he
  · simp only at he
    split_ifs at he
    have hn := compileKernel_ok_noalias he
    exact hn

/-- A parfor's lowering that returns leaves every `noalias` as it found it. -/
theorem lowerParforGufunc_ok_noalias {cfg : LowerConfig} {fault : Option Fault} {k : Nat}
    {p : Parfor} {info : ParforInfo} {h₀ h' : Host}
    (he : lowerParforGufunc cfg fault k p info h₀ = .ok h') (i : Nat) :
    (h'.flags i).noalias = (h₀.flags i).noalias := by
  have hframe := (createGufuncBody_effect cfg fault k p info
    ((h₀.setErrorModel info.flags "numpy").setSeq true)).flags_frame i
  unfold lowerParforGufunc at he
  rw [if_neg (by rintro rfl; simp at he)] at he
  dsimp only at he
  rw [if_neg (by rintro rfl; simp at he)] at he
  split at he <;> rename_i h₁ hb
  · cases he
  · rw [if_neg (by rintro rfl; simp at he)] at he
    cases he
    rw [hb] at hframe
    by_cases hi : i = info.flags
    · subst hi
      simpa [Host.setSeq, Host.setErrorModel, Host.setFlags] using createGufuncBody_ok_noalias hb
    · have hf := hframe fun ⟨_, _, hm, hf⟩ => hi (by simp at hm; exact hm.2 ▸ hf.symm)
      rw [finalState_ok] at hf
      simp [Host.setSeq, hf, Host.setErrorModel, Host.setFlags, hi]

/-! ### The device lowering of a function -/

/-- **The device lowering of a function**, whether it returns or raises: a run over its items. -/
theorem lowerItems_effect (cfg : LowerConfig) (fault : Option Fault) :
    ∀ (k : Nat) (items : List LowerItem) (h : Host),
      DeviceEffect cfg items h (finalState (lowerItems cfg fault k items h))
  | _, [], h => .refl h
  | k, .inst :: rest, h => by
      unfold lowerItems
      split_ifs
      · exact .refl h
      · exact (lowerItems_effect cfg fault (k + 1) rest h).mono (List.subset_cons_self _ _)
  | k, .parfor p info :: rest, h => by
      have hrest := List.subset_cons_self (LowerItem.parfor p info) rest
      have he : DeviceEffect cfg (.parfor p info :: rest) h _ :=
        (lowerParforGufunc_effect cfg fault k p info h).mono (by simp)
      unfold lowerItems
      split
      · cases hr : lowerParforGufunc cfg fault k p info h with
        | error h' => simpa [hr, Except.bind] using he
        | ok h' =>
            rw [hr] at he
            exact he.trans ((lowerItems_effect cfg fault (k + 1) rest h').mono hrest)
      · exact (lowerItems_effect cfg fault (k + 1) rest h).mono hrest
      · exact .refl h

/-- A device lowering that returns leaves every `noalias` as it found it. -/
theorem lowerItems_ok_noalias (cfg : LowerConfig) (fault : Option Fault) :
    ∀ (k : Nat) (items : List LowerItem) (h h' : Host), lowerItems cfg fault k items h = .ok h' →
      ∀ i, (h'.flags i).noalias = (h.flags i).noalias
  | _, [], h, h', he, _ => by cases he; rfl
  | k, .inst :: rest, h, h', he, i => by
      unfold lowerItems at he
      split_ifs at he
      exact lowerItems_ok_noalias cfg fault (k + 1) rest h h' he i
  | k, .parfor p info :: rest, h, h', he, i => by
      unfold lowerItems at he
      split at he
      · cases hr : lowerParforGufunc cfg fault k p info h with
        | error _ => simp [hr, Except.bind] at he
        | ok h₁ =>
            simp only [hr, Except.bind] at he
            rw [lowerItems_ok_noalias cfg fault (k + 1) rest h₁ h' he i,
              lowerParforGufunc_ok_noalias hr i]
      · exact lowerItems_ok_noalias cfg fault (k + 1) rest h h' he i
      · cases he

/-! ### A whole run -/

/-- A diagnostics entry a run on `items` may write: one of a parfor, or the kernel's device. -/
def RunDiag (cfg : LowerConfig) (items : List LowerItem) (d : DiagWrite) : Prop :=
  ParforDiag cfg items d ∨ d = .extra "kernel" cfg.device

theorem installRollback_effect (cfg : LowerConfig) (items : List LowerItem)
    (P : DiagWrite → Prop) (h : Host) : LowerEffect items P h (installRollback cfg h) := by
  unfold installRollback
  split <;> exact .of_flags_eq rfl rfl (.refl _) (.refl _)

/-- The end of the device attempt writes at most the `"kernel"` entry. -/
theorem finishDevice_effect (cfg : LowerConfig) (fault : Option Fault) (saved : Option Handler)
    (items : List LowerItem) (h : Host) :
    LowerEffect items (· = .extra "kernel" cfg.device) h
      (finalState (finishDevice cfg fault saved h)) := by
  unfold finishDevice
  split_ifs
  · exact .refl h
  · cases saved <;> exact .of_flags_eq rfl rfl (.refl _) ⟨_, rfl, by simp⟩
  · cases saved <;> exact .of_flags_eq rfl rfl (.refl _) (.refl _)

/-- It raises only at the device query, and then leaves the state as it was. -/
theorem finishDevice_error {cfg : LowerConfig} {fault : Option Fault} {saved : Option Handler}
    {h h' : Host} (he : finishDevice cfg fault saved h = .error h') : h' = h := by
  unfold finishDevice at he
  split_ifs at he
  cases he
  rfl

/-- When it returns, the device context's entry is the saved one again, if one was saved, and the
flags are untouched. -/
theorem finishDevice_ok {cfg : LowerConfig} {fault : Option Fault} {saved : Option Handler}
    {h h' : Host} (he : finishDevice cfg fault saved h = .ok h') :
    h'.ext = saved.elim h.ext (fun old => Function.update h.ext cfg.gpuCtx (some old)) ∧
      h'.flags = h.flags := by
  unfold finishDevice at he
  split_ifs at he <;> cases he <;> cases saved <;> exact ⟨rfl, rfl⟩

theorem fallback_effect (cfg : LowerConfig) (cpuRaises : Bool) (items : List LowerItem)
    (P : DiagWrite → Prop) (h : Host) : LowerEffect items P h (finalState (fallback cfg cpuRaises h)) := by
  unfold fallback
  split_ifs <;> exact .of_flags_eq rfl rfl (.refl _) (.refl _)

/-- The fallback writes only the CPU context's entry, and that only with `FALLBACK_ON_CPU == 1`. -/
theorem fallback_ext (cfg : LowerConfig) (cpuRaises : Bool) (h : Host) :
    (finalState (fallback cfg cpuRaises h)).ext =
      if cfg.fallbackOnCpu = 1 then Function.update h.ext cfg.cpuCtx (some .parallel) else h.ext := by
  unfold fallback
  split_ifs <;> rfl

section Run

variable {cfg : LowerConfig} {fault : Option Fault} {cpuRaises : Bool} {items : List LowerItem}
  {h₀ h : Host}

theorem lower_of_deviceAttempt_ok (he : deviceAttempt cfg fault items h₀ = .ok h) :
    lower cfg fault cpuRaises items h₀ = .ok h := by
  simp [lower, he]

theorem lower_of_deviceAttempt_error (he : deviceAttempt cfg fault items h₀ = .error h) :
    lower cfg fault cpuRaises items h₀ = fallback cfg cpuRaises h := by
  simp [lower, he]

/-- A device attempt that raises ends in a state the device lowering reached from the installed
rollback: the `"kernel"` entry is written only on the way out of a successful one. -/
theorem deviceAttempt_error (he : deviceAttempt cfg fault items h₀ = .error h) :
    DeviceEffect cfg items (installRollback cfg h₀) h := by
  have e := lowerItems_effect cfg fault 0 items (installRollback cfg h₀)
  unfold deviceAttempt at he
  cases hl : lowerItems cfg fault 0 items (installRollback cfg h₀) with
  | error h₁ =>
      simp only [hl, Except.bind, Except.error.injEq] at he
      rwa [hl, finalState_error, he] at e
  | ok h₁ =>
      simp only [hl, Except.bind] at he
      rwa [hl, finalState_ok, ← finishDevice_error he] at e

/-- A device attempt that returns puts the handler table back and leaves every `noalias` as it
found it. -/
theorem deviceAttempt_ok (he : deviceAttempt cfg fault items h₀ = .ok h) :
    h.ext = h₀.ext ∧ ∀ i, (h.flags i).noalias = (h₀.flags i).noalias := by
  unfold deviceAttempt at he
  cases hl : lowerItems cfg fault 0 items (installRollback cfg h₀) with
  | error h₁ => simp [hl, Except.bind] at he
  | ok h₁ =>
      have hext := (lowerItems_effect cfg fault 0 items (installRollback cfg h₀)).ext
      have hn := lowerItems_ok_noalias cfg fault 0 items _ _ hl
      simp only [hl, Except.bind, finalState_ok] at he hext
      obtain ⟨hx, hf⟩ := finishDevice_ok he
      refine ⟨?_, fun i => by rw [hf, hn i]; unfold installRollback; split <;> rfl⟩
      rw [hx, hext]
      unfold installRollback
      cases hs : h₀.ext cfg.gpuCtx with
      | none => rfl
      | some old =>
          simp only [Option.elim, Function.update_idem]
          rw [← hs, Function.update_eq_self]

theorem deviceAttempt_effect (cfg : LowerConfig) (fault : Option Fault) (items : List LowerItem)
    (h₀ : Host) :
    LowerEffect items (RunDiag cfg items) h₀ (finalState (deviceAttempt cfg fault items h₀)) := by
  have e₁ : LowerEffect items (RunDiag cfg items) h₀
      (finalState (lowerItems cfg fault 0 items (installRollback cfg h₀))) :=
    (installRollback_effect cfg items _ h₀).trans
      ((lowerItems_effect cfg fault 0 items _).toLowerEffect.mono (List.Subset.refl _)
        fun _ => Or.inl)
  unfold deviceAttempt
  cases hl : lowerItems cfg fault 0 items (installRollback cfg h₀) with
  | error h₁ => rwa [hl] at e₁
  | ok h₁ =>
      rw [hl] at e₁
      exact e₁.trans ((finishDevice_effect cfg fault _ items h₁).mono (List.Subset.refl _)
        fun _ => Or.inr)

/-- Every run, whether it returns or raises, on the device or through the fallback. -/
theorem lower_effect (cfg : LowerConfig) (fault : Option Fault) (cpuRaises : Bool)
    (items : List LowerItem) (h₀ : Host) :
    LowerEffect items (RunDiag cfg items) h₀ (finalState (lower cfg fault cpuRaises items h₀)) := by
  have e := deviceAttempt_effect cfg fault items h₀
  cases he : deviceAttempt cfg fault items h₀ with
  | ok h => rwa [lower_of_deviceAttempt_ok he, ← he]
  | error h =>
      rw [he] at e
      rw [lower_of_deviceAttempt_error he]
      exact e.trans (fallback_effect cfg cpuRaises items _ h)

/-- **`sequential_parfor_lowering` and the flags.**  Every run entered with
`sequential_parfor_lowering` false leaves it false, leaves every `Flags` object that is no parfor's
of the function as it was, and changes the others at most by `error_model = "numpy"` and
`noalias = True`. -/
theorem lower_sequentialParforLowering_flags (hseq : h₀.sequentialParforLowering = false) :
    (finalState (lower cfg fault cpuRaises items h₀)).sequentialParforLowering = false ∧
      (∀ i, ¬ FlagsOf items i → (finalState (lower cfg fault cpuRaises items h₀)).flags i = h₀.flags i) ∧
      ∀ i, (h₀.flags i).Written ((finalState (lower cfg fault cpuRaises items h₀)).flags i) :=
  let e := lower_effect cfg fault cpuRaises items h₀
  ⟨e.seq hseq, e.flags_frame, e.flags⟩

/-- **A run that succeeds on the device** returns the attempt's state, with every context's
handler and every `noalias` as they were on entry. -/
theorem lower_ok_device (he : deviceAttempt cfg fault items h₀ = .ok h) :
    lower cfg fault cpuRaises items h₀ = .ok h ∧ h.ext = h₀.ext ∧
      ∀ i, (h.flags i).noalias = (h₀.flags i).noalias :=
  ⟨lower_of_deviceAttempt_ok he, deviceAttempt_ok he⟩

/-- **When the handler table comes back.**  From a state numba hands over, a run leaves every
context's Parfor entry as it was exactly when its device attempt succeeded, or the fallback ran, or
the device context is a `DPPYTargetContext`, where nothing was installed: a `CPUContext` whose
device attempt raised with `FALLBACK_ON_CPU` other than 1 keeps `lower_parfor_rollback`. -/
theorem lower_ext_eq_iff (hr : cfg.Receivable h₀) :
    (finalState (lower cfg fault cpuRaises items h₀)).ext = h₀.ext ↔
      (∃ h, deviceAttempt cfg fault items h₀ = .ok h) ∨ cfg.fallbackOnCpu = 1 ∨
        cfg.gpuCtx ≠ cfg.cpuCtx := by
  cases he : deviceAttempt cfg fault items h₀ with
  | ok h => simp [lower_of_deviceAttempt_ok he, (deviceAttempt_ok he).1]
  | error h =>
      rw [lower_of_deviceAttempt_error he, fallback_ext, (deviceAttempt_error he).ext]
      have hpar : Function.update h₀.ext cfg.cpuCtx (some .parallel) = h₀.ext := by
        rw [← hr.cpu, Function.update_eq_self]
      by_cases hg : cfg.gpuCtx = cfg.cpuCtx
      · -- a `CPUContext`: the rollback replaced numba's handler
        have hi : (installRollback cfg h₀).ext =
            Function.update h₀.ext cfg.cpuCtx (some .rollback) := by
          simp [installRollback, hg, hr.cpu]
        have hne : Function.update h₀.ext cfg.cpuCtx (some .rollback) ≠ h₀.ext := fun heq => by
          simpa [hr.cpu] using congrFun heq cfg.cpuCtx
        split_ifs with hf <;> simp [hi, hf, hg, hpar, hne]
      · -- a `DPPYTargetContext`: nothing was installed
        have hi : (installRollback cfg h₀).ext = h₀.ext := by
          simp [installRollback, hr.dppy hg]
        split_ifs <;> simp [hi, hg, hpar]

/-- numba's `CPUContext` (number 0) as the device lowerer's context, hence also the CPU lowerer's,
with the given `FALLBACK_ON_CPU`. -/
def cpuContext (fallbackOnCpu : Nat) : LowerConfig := ⟨0, 0, fallbackOnCpu, "opencl:gpu:0"⟩

/-- The host before lowering the race parfor: numba's handler in every context, every `Flags`
object at numba's defaults (`noalias` false, `error_model` `"python"`), and the descriptor of
`raceState`. -/
def raceHost : Host :=
  ⟨fun _ => some .parallel, false, fun _ => ⟨false, "python"⟩, raceState.typemap,
    raceState.calltypes, raceState.counter, []⟩

/-- The function: the race parfor alone, without aliases or DUFunc calls, with `Flags` object 0. -/
def raceItems : List LowerItem := [.parfor raceParfor ⟨[], [], false, 0, []⟩]

theorem lower_sequentialParforLowering_flags_race :
    raceHost.sequentialParforLowering = false ∧
      ((finalState (lower (cpuContext 0) (some (.kernel 0)) false raceItems raceHost)).sequentialParforLowering
          = false ∧
        (∀ i, ¬ FlagsOf raceItems i →
          (finalState (lower (cpuContext 0) (some (.kernel 0)) false raceItems raceHost)).flags i =
            raceHost.flags i) ∧
        ∀ i, (raceHost.flags i).Written
          ((finalState (lower (cpuContext 0) (some (.kernel 0)) false raceItems raceHost)).flags i)) :=
  ⟨rfl, @lower_sequentialParforLowering_flags (cpuContext 0) (some (.kernel 0)) false raceItems
    raceHost rfl⟩

theorem lower_ok_device_race :
    ∃ h, deviceAttempt (cpuContext 0) none raceItems raceHost = .ok h ∧
      (lower (cpuContext 0) none false raceItems raceHost = .ok h ∧ h.ext = raceHost.ext ∧
        ∀ i, (h.flags i).noalias = (raceHost.flags i).noalias) :=
  ⟨_, rfl, @lower_ok_device (cpuContext 0) none false raceItems raceHost _ rfl⟩

theorem lower_ext_eq_iff_race :
    (cpuContext 0).Receivable raceHost ∧
      ((finalState (lower (cpuContext 0) (some (.kernel 0)) false raceItems raceHost)).ext =
          raceHost.ext ↔
        (∃ h, deviceAttempt (cpuContext 0) (some (.kernel 0)) raceItems raceHost = .ok h) ∨
          (cpuContext 0).fallbackOnCpu = 1 ∨ (cpuContext 0).gpuCtx ≠ (cpuContext 0).cpuCtx) :=
  ⟨⟨rfl, fun h => absurd rfl h⟩, lower_ext_eq_iff ⟨rfl, fun h => absurd rfl h⟩⟩

/-- Three runs of the race parfor on a `CPUContext`: its kernel fails to compile without and with
`FALLBACK_ON_CPU`, and it compiles.  The first raises with `lower_parfor_rollback` where numba's
handler was; every one leaves the parfor's flags with `error_model = "numpy"`, the first two also
with `noalias` set. -/
theorem lower_raise_leaves_rollback :
    raceHost.ext 0 = some .parallel ∧ raceHost.flags 0 = ⟨false, "python"⟩ ∧
      (∃ h, lower (cpuContext 0) (some (.kernel 0)) false raceItems raceHost = .error h ∧
        h.ext 0 = some .rollback ∧ h.flags 0 = ⟨true, "numpy"⟩) ∧
      (∃ h, lower (cpuContext 1) (some (.kernel 0)) false raceItems raceHost = .ok h ∧
        h.ext 0 = some .parallel ∧ h.flags 0 = ⟨true, "numpy"⟩) ∧
      ∃ h, lower (cpuContext 0) none false raceItems raceHost = .ok h ∧
        h.ext 0 = some .parallel ∧ h.flags 0 = ⟨false, "numpy"⟩ :=
  ⟨rfl, rfl, ⟨_, rfl, rfl, rfl⟩, ⟨_, rfl, rfl, rfl⟩, _, rfl, rfl, rfl⟩

end Run

end ParforOffload
