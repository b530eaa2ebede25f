/-
**Atomic operations in kernels: `atomic.add` and `atomic.sub`.**

`atomic_add_tuple` and `atomic_sub_tuple` lower `dppy.atomic.add(A, idx, v)` and
`dppy.atomic.sub(A, idx, v)`.  For an integer array both call the SPIR-V builtin
`__spirv_AtomicIAdd` (`native_atomic_add`), `sub` after negating the value (`atomic_sub_wrapper`).
For a floating-point array they call `__spirv_AtomicFAddEXT` on a GPU when `NATIVE_FP_ATOMICS` is
set, and otherwise a function of the `numba_dppy` atomics library, `numba_dppy_atomic_add_f32_local`
and its siblings (`atomic_add`, `insert_and_call_atomic_fn`).  Every path checks that the value has
the array's dtype and that the index has one entry per dimension.

A kernel's work-items run their atomic operations in any interleaving.  The model lets a scheduler
pick any work-item with an operation left, and runs that operation's lowered call as one step.

Main definitions:

* `ParforOffload.atomicAddTuple`, `ParforOffload.atomicSubTuple` — the lowerings, with
  `nativeAtomicAdd`, `atomicSubWrapper`, `atomicAdd` and `insertAndCallAtomicFn`;
* `ParforOffload.getItemPointer` — the element an index tuple addresses;
* `ParforOffload.AtomicCall.exec` — what the called function does to memory;
* `ParforOffload.Kernel.step`, `ParforOffload.Kernel.Reach` — the interleaved runs of a kernel.

Main results:

* `ParforOffload.lowerAtomic_exec` — **the lowering keeps the meaning**: the call emitted for
  `atomic.add` adds the value to the addressed element and the one for `atomic.sub` subtracts it;
* `ParforOffload.lowerAtomic_isOk_iff` — the signatures that lower, and that every other one is an
  error;
* `ParforOffload.kernel_atomics_total` — **no update is lost**: in every run the memory plus what
  is still owed is constant, a run can always go on until all calls are made, and where no
  work-item can move each element holds its initial value plus the values added minus those
  subtracted;
* `ParforOffload.genericArray_atomics` — for an array of `_generic_array`, the same per in-bounds
  index tuple.

The conservation results need the elements to form a ring: they hold for integer arrays, whose
arithmetic wraps around, and not for floating-point ones, whose sums depend on the order.
-/

import Mathlib.Algebra.Order.BigOperators.Group.List
import Mathlib.Data.BitVec
import Mathlib.Tactic.Abel
import ParforOffload.LocalArray

set_option autoImplicit false

namespace ParforOffload

/-! ### Types and the lowering -/

/-- The numba scalar types the atomic lowerings test for; `other` carries the printed name of any
other type. -/
inductive NumbaTy where
  | int32
  | int64
  | float32
  | float64
  | other (name : String)
  deriving DecidableEq, Repr

/-- `str(t)`, as the error messages print a type. -/
def NumbaTy.name : NumbaTy → String
  | .int32 => "int32"
  | .int64 => "int64"
  | .float32 => "float32"
  | .float64 => "float64"
  | .other n => n

/-- `t == types.float32 or t == types.float64`. -/
def NumbaTy.isFloat (t : NumbaTy) : Bool := t = .float32 || t = .float64

/-- `t == types.int32 or t == types.int64`. -/
def NumbaTy.isInt (t : NumbaTy) : Bool := t = .int32 || t = .int64

/-- The layout of an array type. -/
inductive Layout where
  | C
  | F
  | A
  deriving DecidableEq, Repr

/-- The array type `aryty` of an atomic call: its dtype, rank and layout, its address space, and
whether it is a `DPPYArray`. -/
structure AryTy where
  dtype : NumbaTy
  ndim : Nat
  layout : Layout
  addrspace : AddrSpace
  isDPPYArray : Bool

/-- The index type `indty`: `types.intp`, or a tuple of `count` integers. -/
inductive IndTy where
  | intp
  | tuple (count : Nat)

/-- `len(indty)`, once a single `intp` is made the list `[indty]`. -/
def IndTy.count : IndTy → Nat
  | .intp => 1
  | .tuple n => n

/-- The signature `sig.args = (aryty, indty, valty)` of an atomic call. -/
structure AtomicSig where
  aryty : AryTy
  indty : IndTy
  valty : NumbaTy

/-- Modelled from dpctl: the device type of the current queue's device, as
`dpctl.get_current_queue().sycl_device.device_type` gives it. -/
inductive DeviceType where
  | gpu
  | cpu
  | other
  deriving DecidableEq, Repr

/-- What the lowerings read besides the signature: the device of the current queue,
`config.NATIVE_FP_ATOMICS`, and whether `atomic_support_present()`. -/
structure AtomicEnv where
  deviceType : DeviceType
  nativeFpAtomics : Nat
  atomicSupport : Bool

/-- The entries the lowerings set in `context.extra_compile_options`: `LLVM_SPIRV_ARGS` with the
float-add extension, and `LINK_ATOMIC`. -/
structure CompileOpts where
  spirvFloatAdd : Bool := false
  linkAtomic : Bool := false
  deriving DecidableEq, Repr

/-- The function an atomic lowering calls: a SPIR-V builtin, by its name before mangling, or a
function of the `numba_dppy` atomics library. -/
inductive AtomicFn where
  | spirv (name : String)
  | dppy (name : String)
  deriving DecidableEq, Repr

/-- The call an atomic lowering emits: the function, the byte offset of the element from the data
pointer, and the value passed. -/
structure AtomicCall (V : Type) where
  fn : AtomicFn
  ptr : Int
  val : V

/-- The steps of an `F`-layout array: `∏_{l < j} s_l`. -/
def fSteps (shape : List Int) : List Int :=
  (List.range shape.length).map fun j => (shape.take j).prod

/-- Modelled from numba's `cgutils.get_item_pointer` (not under src/), with neither
wraparound nor bounds check, as a byte offset from the data pointer.  For the layouts `C` and `F`
the element offset is taken from the shape and scaled by the item size; for `A` the byte strides
are used. -/
def getItemPointer (layout : Layout) (ary : ArrayStruct) (inds : List Int) : Int :=
  match layout with
  | .C => ary.itemsize * offset (cStrides 1 ary.shape) inds
  | .F => ary.itemsize * offset (fSteps ary.shape) inds
  | .A => offset ary.strides inds

/-- The checks `native_atomic_add` and `atomic_add` make, in order: the value has the array's
dtype, and the index has one entry per dimension. -/
def checkAtomicSig (sig : AtomicSig) : Except String Unit := do
  if sig.aryty.dtype ≠ sig.valty then
    throw ("expecting " ++ sig.aryty.dtype.name ++ " but got " ++ sig.valty.name)
  if sig.aryty.ndim ≠ sig.indty.count then
    throw ("indexing " ++ toString sig.aryty.ndim ++ "-D array with " ++
      toString sig.indty.count ++ "-D index")

section Lowering

variable {V : Type} [Mul V] [Neg V] [OfNat V 1]

/-- `insert_and_call_atomic_fn(context, builder, sig, fn_type, dtype, ptr, val, addrspace)`. -/
def insertAndCallAtomicFn (fnType : String) (dtype : NumbaTy) (ptr : Int) (val : V)
    (addrspace : AddrSpace) : Except String (AtomicCall V) := do
  let name ← match dtype with
    | .float32 =>
      if fnType = "add" then pure "numba_dppy_atomic_add_f32"
      else if fnType = "sub" then pure "numba_dppy_atomic_sub_f32"
      else throw ("Operation type is not supported " ++ fnType)
    | .float64 =>
      if fnType = "add" then pure "numba_dppy_atomic_add_f64"
      else if fnType = "sub" then pure "numba_dppy_atomic_sub_f64"
      else throw ("Operation type is not supported " ++ fnType)
    | d => throw ("Atomic operation is not supported for type " ++ d.name)
  let name := if addrspace = .localMem then name ++ "_local" else name ++ "_global"
  pure ⟨.dppy name, ptr, val⟩

/-- `native_atomic_add(context, builder, sig, args)`. -/
def nativeAtomicAdd (sig : AtomicSig) (ary : ArrayStruct) (inds : List Int) (val : V)
    (opts : CompileOpts) : Except String (AtomicCall V × CompileOpts) := do
  checkAtomicSig sig
  let ptr := getItemPointer sig.aryty.layout ary inds
  if sig.aryty.dtype.isFloat then
    pure (⟨.spirv "__spirv_AtomicFAddEXT", ptr, val⟩, { opts with spirvFloatAdd := true })
  else if sig.aryty.dtype.isInt then
    pure (⟨.spirv "__spirv_AtomicIAdd", ptr, val⟩, opts)
  else throw "Unsupported type"

/-- `atomic_sub_wrapper(context, builder, sig, args)`: `atomic.add` of the value times `-1`. -/
def atomicSubWrapper (sig : AtomicSig) (ary : ArrayStruct) (inds : List Int) (val : V)
    (opts : CompileOpts) : Except String (AtomicCall V × CompileOpts) := do
  let newVal ← if sig.valty.isFloat then pure (val * -1)
    else if sig.valty.isInt then pure (val * -1)
    else throw ("Unsupported type " ++ sig.valty.name)
  nativeAtomicAdd sig ary inds newVal opts

/-- `atomic_add(context, builder, sig, args, name)`: the call of the `numba_dppy` atomics
library. -/
def atomicAdd (env : AtomicEnv) (sig : AtomicSig) (ary : ArrayStruct) (inds : List Int) (val : V)
    (name : String) (opts : CompileOpts) : Except String (AtomicCall V × CompileOpts) := do
  if !env.atomicSupport then
    throw "Atomic support is not present, can not perform atomic_add"
  let opts := { opts with linkAtomic := true }
  checkAtomicSig sig
  let ptr := getItemPointer sig.aryty.layout ary inds
  let addrspace :=
    if sig.aryty.isDPPYArray ∧ sig.aryty.addrspace = .localMem then AddrSpace.localMem
    else .globalMem
  let call ← insertAndCallAtomicFn name sig.aryty.dtype ptr val addrspace
  pure (call, opts)

/-- Native floating-point atomics are used on a GPU when `NATIVE_FP_ATOMICS == 1`. -/
def AtomicEnv.nativeFp (env : AtomicEnv) : Bool :=
  env.deviceType = .gpu && env.nativeFpAtomics = 1

/-- `atomic_add_tuple(context, builder, sig, args)`: the lowering of `atomic.add`. -/
def atomicAddTuple (env : AtomicEnv) (sig : AtomicSig) (ary : ArrayStruct) (inds : List Int)
    (val : V) (opts : CompileOpts) : Except String (AtomicCall V × CompileOpts) :=
  if sig.aryty.dtype.isFloat then
    if env.nativeFp then nativeAtomicAdd sig ary inds val opts
    else atomicAdd env sig ary inds val "add" opts
  else if sig.aryty.dtype.isInt then nativeAtomicAdd sig ary inds val opts
  else throw ("Atomic operation on unsupported type " ++ sig.aryty.dtype.name)

/-- `atomic_sub_tuple(context, builder, sig, args)`: the lowering of `atomic.sub`. -/
def atomicSubTuple (env : AtomicEnv) (sig : AtomicSig) (ary : ArrayStruct) (inds : List Int)
    (val : V) (opts : CompileOpts) : Except String (AtomicCall V × CompileOpts) :=
  if sig.aryty.dtype.isFloat then
    if env.nativeFp then atomicSubWrapper sig ary inds val opts
    else atomicAdd env sig ary inds val "sub" opts
  else if sig.aryty.dtype.isInt then atomicSubWrapper sig ary inds val opts
  else throw ("Atomic operation on unsupported type " ++ sig.aryty.dtype.name)

/-- The lowering of `atomic.sub` (`isSub`) or of `atomic.add`, as `lower_builtin` registers them. -/
def lowerAtomic (env : AtomicEnv) (isSub : Bool) (sig : AtomicSig) (ary : ArrayStruct)
    (inds : List Int) (val : V) (opts : CompileOpts) : Except String (AtomicCall V × CompileOpts) :=
  if isSub then atomicSubTuple env sig ary inds val opts else atomicAddTuple env sig ary inds val opts

end Lowering

/-! ### What the called functions do -/

/-- The functions of the `numba_dppy` atomics library that `insert_and_call_atomic_fn` names for
an add, for each of `float32` and `float64` and each of local and global memory. -/
def dppyAtomicAddFns : List String :=
  ["numba_dppy_atomic_add_f32_local", "numba_dppy_atomic_add_f32_global",
    "numba_dppy_atomic_add_f64_local", "numba_dppy_atomic_add_f64_global"]

/-- The functions of the `numba_dppy` atomics library that `insert_and_call_atomic_fn` names for a
subtraction. -/
def dppyAtomicSubFns : List String :=
  ["numba_dppy_atomic_sub_f32_local", "numba_dppy_atomic_sub_f32_global",
    "numba_dppy_atomic_sub_f64_local", "numba_dppy_atomic_sub_f64_global"]

/-- Whether the called function subtracts (`some true`) or adds (`some false`) its value; `none`
for a function that is neither.  Modelled from the SPIR-V specification for `OpAtomicIAdd` and
`OpAtomicFAddEXT` (extension `SPV_EXT_shader_atomic_float_add`), and from the names of the
`numba_dppy` atomics library, whose OpenCL source is not under src/. -/
def AtomicFn.isSub : AtomicFn → Option Bool
  | .spirv n => if n = "__spirv_AtomicIAdd" ∨ n = "__spirv_AtomicFAddEXT" then some false else none
  | .dppy n =>
    if n ∈ dppyAtomicAddFns then some false
    else if n ∈ dppyAtomicSubFns then some true
    else none

/-- The called function, run atomically: it updates the element at `ptr` and returns its old
value. -/
def AtomicCall.exec {V : Type} [Add V] [Sub V] (c : AtomicCall V) (mem : Int → V) :
    Option ((Int → V) × V) :=
  c.fn.isSub.map fun sub =>
    (Function.update mem c.ptr (if sub then mem c.ptr - c.val else mem c.ptr + c.val), mem c.ptr)

/-! ### What a lowering emits -/

section Spec

variable {V : Type}

/-- `c` calls a function that adds (`sub = false`) or subtracts (`sub = true`) the value `v` at
the byte offset `ptr`. -/
structure AtomicCall.Performs (c : AtomicCall V) (sub : Bool) (ptr : Int) (v : V) : Prop where
  isSub_eq : c.fn.isSub = some sub
  ptr_eq : c.ptr = ptr
  val_eq : c.val = v

theorem AtomicCall.Performs.exec_eq [Add V] [Sub V] {c : AtomicCall V} {sub : Bool} {ptr : Int}
    {v : V} (h : c.Performs sub ptr v) (mem : Int → V) :
    c.exec mem =
      some (Function.update mem ptr (if sub then mem ptr - v else mem ptr + v), mem ptr) := by
  obtain ⟨h, rfl, rfl⟩ := h
  simp [AtomicCall.exec, h]

variable {sig : AtomicSig} {ary : ArrayStruct} {inds : List Int} {val : V}
  {opts o : CompileOpts} {c : AtomicCall V}

/-- On an array with C-order strides, the pointer of the `C` layout, from the shape, is the strided
pointer of the `A` layout. -/
theorem getItemPointer_C_eq_A {ary : ArrayStruct}
    (hs : ary.strides = cStrides ary.itemsize ary.shape) (inds : List Int) :
    getItemPointer .C ary inds = getItemPointer .A ary inds := by
  rw [getItemPointer, getItemPointer, hs, offset_cStrides (ary.itemsize : Int) ary.shape inds]

theorem checkAtomicSig_eq_ok {u : Unit} :
    checkAtomicSig sig = .ok u ↔ sig.aryty.dtype = sig.valty ∧ sig.aryty.ndim = sig.indty.count := by
  unfold checkAtomicSig
  by_cases h1 : sig.aryty.dtype = sig.valty <;> by_cases h2 : sig.aryty.ndim = sig.indty.count <;>
    simp [h1, h2, bind, Except.bind]

theorem insertAndCallAtomicFn_ok {fnType : String} {dtype : NumbaTy} {ptr : Int}
    {sp : AddrSpace} (h : insertAndCallAtomicFn fnType dtype ptr val sp = .ok c) :
    dtype.isFloat ∧ c.Performs (fnType = "sub") ptr val := by
  unfold insertAndCallAtomicFn at h
  cases dtype <;> simp [bind, Except.bind] at h
  all_goals
    refine ⟨rfl, ?_⟩
    split_ifs at h <;> cases h <;> subst_vars <;> exact ⟨rfl, rfl, rfl⟩

theorem insertAndCallAtomicFn_isOk {fnType : String} {dtype : NumbaTy} (hd : dtype.isFloat)
    (hf : fnType = "add" ∨ fnType = "sub") (ptr : Int) (val : V) (sp : AddrSpace) :
    ∃ c, insertAndCallAtomicFn fnType dtype ptr val sp = .ok c := by
  unfold insertAndCallAtomicFn
  cases dtype <;> simp [NumbaTy.isFloat] at hd <;>
    rcases hf with rfl | rfl <;> exact ⟨_, rfl⟩

theorem nativeAtomicAdd_ok (h : nativeAtomicAdd sig ary inds val opts = .ok (c, o)) :
    checkAtomicSig sig = .ok () ∧ (sig.aryty.dtype.isFloat ∨ sig.aryty.dtype.isInt) ∧
      c.Performs false (getItemPointer sig.aryty.layout ary inds) val := by
  unfold nativeAtomicAdd at h
  cases hc : checkAtomicSig sig with
  | error e => simp [hc, bind, Except.bind] at h
  | ok u =>
    simp only [hc, bind, Except.bind] at h
    split_ifs at h with h₁ h₂ <;> cases h
    · exact ⟨rfl, .inl h₁, rfl, rfl, rfl⟩
    · exact ⟨rfl, .inr h₂, rfl, rfl, rfl⟩

theorem nativeAtomicAdd_isOk (hc : checkAtomicSig sig = .ok ())
    (ht : sig.aryty.dtype.isFloat ∨ sig.aryty.dtype.isInt) :
    ∃ r, nativeAtomicAdd sig ary inds val opts = .ok r := by
  unfold nativeAtomicAdd
  simp only [hc, bind, Except.bind]
  split_ifs with h₁ h₂
  · exact ⟨_, rfl⟩
  · exact ⟨_, rfl⟩
  · simp_all

theorem atomicAdd_ok {env : AtomicEnv} {name : String}
    (h : atomicAdd env sig ary inds val name opts = .ok (c, o)) :
    env.atomicSupport ∧ checkAtomicSig sig = .ok () ∧ sig.aryty.dtype.isFloat ∧
      c.Performs (name = "sub") (getItemPointer sig.aryty.layout ary inds) val := by
  unfold atomicAdd at h
  cases hs : env.atomicSupport
  · simp [hs, bind, Except.bind] at h
  simp only [hs, Bool.not_true, Bool.false_eq_true, ↓reduceIte, pure_bind] at h
  obtain ⟨⟨⟩, hc, h⟩ := Except.bind_eq_ok.1 h
  obtain ⟨call, hcall, h⟩ := Except.bind_eq_ok.1 h
  cases h
  exact ⟨rfl, hc, insertAndCallAtomicFn_ok hcall⟩

theorem atomicAdd_isOk {env : AtomicEnv} {name : String} (hs : env.atomicSupport)
    (hc : checkAtomicSig sig = .ok ()) (hd : sig.aryty.dtype.isFloat)
    (hn : name = "add" ∨ name = "sub") : ∃ r, atomicAdd env sig ary inds val name opts = .ok r := by
  obtain ⟨c, hcall⟩ := insertAndCallAtomicFn_isOk hd hn (getItemPointer sig.aryty.layout ary inds)
    val (if sig.aryty.isDPPYArray ∧ sig.aryty.addrspace = .localMem then .localMem else .globalMem)
  unfold atomicAdd
  simp [hs, hc, hcall, bind, Except.bind]

variable [Mul V] [Neg V] [OfNat V 1]

theorem atomicSubWrapper_eq (hv : sig.valty.isFloat ∨ sig.valty.isInt) :
    atomicSubWrapper sig ary inds val opts = nativeAtomicAdd sig ary inds (val * -1) opts := by
  unfold atomicSubWrapper
  split_ifs with h₁ h₂ <;> first | rfl | simp_all

theorem atomicSubWrapper_ok {r : AtomicCall V × CompileOpts}
    (h : atomicSubWrapper sig ary inds val opts = .ok r) :
    nativeAtomicAdd sig ary inds (val * -1) opts = .ok r := by
  unfold atomicSubWrapper at h
  split_ifs at h
  · exact h
  · exact h
  · simp [bind, Except.bind] at h

/-- The signatures the lowerings of `atomic.add` and `atomic.sub` accept: an array of integers or
floating-point numbers, a value of its dtype, one index per dimension, and, where a floating-point
operation is left to the atomics library, the library present. -/
structure AtomicSig.Lowerable (env : AtomicEnv) (sig : AtomicSig) : Prop where
  numeric : sig.aryty.dtype.isFloat ∨ sig.aryty.dtype.isInt
  valty_eq : sig.aryty.dtype = sig.valty
  ndim_eq : sig.aryty.ndim = sig.indty.count
  support : sig.aryty.dtype.isFloat → env.nativeFp = false → env.atomicSupport

variable {env : AtomicEnv} {isSub : Bool}

/-- **What a successful lowering emits.**  The signature is one the lowerings accept, and the call
adds (`atomic.add`) or subtracts (`atomic.sub`) the value at the element the index addresses;
`atomic.sub` on the native path adds the value times `-1` instead. -/
theorem lowerAtomic_ok (h : lowerAtomic env isSub sig ary inds val opts = .ok (c, o)) :
    sig.Lowerable env ∧
      (c.Performs isSub (getItemPointer sig.aryty.layout ary inds) val ∨
        isSub ∧ c.Performs false (getItemPointer sig.aryty.layout ary inds) (val * -1)) := by
  have typed : checkAtomicSig sig = .ok () →
      sig.aryty.dtype = sig.valty ∧ sig.aryty.ndim = sig.indty.count := checkAtomicSig_eq_ok.1
  cases isSub <;> simp only [lowerAtomic, atomicAddTuple, atomicSubTuple, Bool.false_eq_true,
    ↓reduceIte] at h <;> split_ifs at h with hf hn hi
  · obtain ⟨hc, ht, hp⟩ := nativeAtomicAdd_ok h
    exact ⟨⟨ht, (typed hc).1, (typed hc).2, by simp [hn]⟩, .inl hp⟩
  · obtain ⟨hs, hc, -, hp⟩ := atomicAdd_ok h
    exact ⟨⟨.inl hf, (typed hc).1, (typed hc).2, fun _ _ => hs⟩, .inl hp⟩
  · obtain ⟨hc, ht, hp⟩ := nativeAtomicAdd_ok h
    exact ⟨⟨ht, (typed hc).1, (typed hc).2, by simp [hf]⟩, .inl hp⟩
  · obtain ⟨hc, ht, hp⟩ := nativeAtomicAdd_ok (atomicSubWrapper_ok h)
    exact ⟨⟨ht, (typed hc).1, (typed hc).2, by simp [hn]⟩, .inr ⟨rfl, hp⟩⟩
  · obtain ⟨hs, hc, -, hp⟩ := atomicAdd_ok h
    exact ⟨⟨.inl hf, (typed hc).1, (typed hc).2, fun _ _ => hs⟩, .inl hp⟩
  · obtain ⟨hc, ht, hp⟩ := nativeAtomicAdd_ok (atomicSubWrapper_ok h)
    exact ⟨⟨ht, (typed hc).1, (typed hc).2, by simp [hf]⟩, .inr ⟨rfl, hp⟩⟩

/-- **Which signatures lower.**  `atomic.add` and `atomic.sub` lower exactly the signatures the
lowerings accept; every other one is an error. -/
theorem lowerAtomic_isOk_iff :
    (∃ r, lowerAtomic env isSub sig ary inds val opts = .ok r) ↔ sig.Lowerable env := by
  refine ⟨fun ⟨_, h⟩ => (lowerAtomic_ok h).1, fun ⟨ht, hv, hn, hs⟩ => ?_⟩
  have hc : checkAtomicSig sig = .ok () := checkAtomicSig_eq_ok.2 ⟨hv, hn⟩
  have hv' : sig.valty.isFloat ∨ sig.valty.isInt := hv ▸ ht
  cases isSub <;> simp only [lowerAtomic, atomicAddTuple, atomicSubTuple, Bool.false_eq_true,
    ↓reduceIte] <;> split_ifs with hf hnat hi
  · exact nativeAtomicAdd_isOk hc ht
  · exact atomicAdd_isOk (hs hf (by simpa using hnat)) hc hf (.inl rfl)
  · exact nativeAtomicAdd_isOk hc ht
  · simp_all
  · rw [atomicSubWrapper_eq hv']; exact nativeAtomicAdd_isOk hc ht
  · exact atomicAdd_isOk (hs hf (by simpa using hnat)) hc hf (.inr rfl)
  · rw [atomicSubWrapper_eq hv']; exact nativeAtomicAdd_isOk hc ht
  · simp_all

/-- **The lowering keeps the meaning.**  Where `v * -1` added is `v` subtracted, as in two's
complement integers and in IEEE arithmetic, the call a lowering of `atomic.add` emits adds the
value to the element the index addresses, the call for `atomic.sub` subtracts it, and either
returns the element's old value. -/
theorem lowerAtomic_exec [Add V] [Sub V] (hneg : ∀ a v : V, a + v * -1 = a - v)
    (h : lowerAtomic env isSub sig ary inds val opts = .ok (c, o)) (mem : Int → V) :
    c.ptr = getItemPointer sig.aryty.layout ary inds ∧
      c.exec mem = some (Function.update mem c.ptr
        (if isSub then mem c.ptr - val else mem c.ptr + val), mem c.ptr) := by
  rcases (lowerAtomic_ok h).2 with hp | ⟨rfl, hp⟩
  · rw [hp.exec_eq, hp.ptr_eq]
    exact ⟨rfl, rfl⟩
  · rw [hp.exec_eq, hp.ptr_eq, hneg]
    exact ⟨rfl, rfl⟩

/-- `atomic.sub` of `2` on an `int32` local array, lowered to the native add of `2 * -1`. -/
theorem lowerAtomic_exec_int32Sub :
    (∀ a v : BitVec 32, a + v * -1 = a - v) ∧
      lowerAtomic ⟨.gpu, 0, true⟩ true ⟨⟨.int32, 1, .C, .localMem, true⟩, .intp, .int32⟩
          (makeArray ⟨"_dppy_lmem", .localMem, 4, 4⟩ int32 [4] .localMem) [1] (2 : BitVec 32) {} =
        .ok (⟨.spirv "__spirv_AtomicIAdd", 4, 2 * -1⟩, {}) ∧
      ((⟨.spirv "__spirv_AtomicIAdd", 4, 2 * -1⟩ : AtomicCall (BitVec 32)).ptr =
          getItemPointer .C (makeArray ⟨"_dppy_lmem", .localMem, 4, 4⟩ int32 [4] .localMem) [1] ∧
        AtomicCall.exec ⟨.spirv "__spirv_AtomicIAdd", 4, (2 : BitVec 32) * -1⟩ (fun _ => 7) =
          some (Function.update (fun _ => 7) 4 (7 - 2), 7)) := by
  have hneg : ∀ a v : BitVec 32, a + v * -1 = a - v := fun _ _ => by ring
  refine ⟨hneg, ?h, lowerAtomic_exec hneg ?h (fun _ => 7)⟩
  rfl

end Spec

/-! ### Kernels: the calls of all work-items, in any interleaving -/

section Kernel

variable {V : Type}

/-- A kernel's state as its atomic calls see it: the array's memory, by byte offset from its data
pointer, and for each work-item the calls it has still to make, in program order. -/
structure Kernel (V : Type) where
  mem : Int → V
  pending : List (List (AtomicCall V))

/-- Every work-item has made all its calls. -/
def Kernel.Finished (k : Kernel V) : Prop := ∀ cs ∈ k.pending, cs = []

/-- Every call still to make is to a function that adds or subtracts. -/
def Kernel.Valid (k : Kernel V) : Prop := ∀ cs ∈ k.pending, ∀ c ∈ cs, c.fn.isSub.isSome

/-- The number of calls still to make. -/
def Kernel.size (k : Kernel V) : Nat := (k.pending.map List.length).sum

/-- Replacing the calls `x` of one work-item by `y` changes a sum over the work-items by the
difference. -/
theorem sum_map_set_of_getD {α β : Type} [AddCommMonoid β] (f : List α → β) :
    ∀ (l : List (List α)) (i : Nat) {x : List α} (y : List α), x ≠ [] → l.getD i [] = x →
      ((l.set i y).map f).sum + f x = (l.map f).sum + f y
  | [], _, _, _, hx, h => absurd h.symm hx
  | _ :: _, 0, _, _, _, h => by
    rw [← h]
    simp only [List.getD_cons_zero, List.set_cons_zero, List.map_cons, List.sum_cons]
    ac_rfl
  | a :: l, i + 1, _, y, hx, h => by
    simp only [List.set_cons_succ, List.map_cons, List.sum_cons, add_assoc,
      sum_map_set_of_getD f l i y hx h]

theorem mem_of_getD_eq_cons {α : Type} :
    ∀ (l : List (List α)) (i : Nat) {c : α} {rest : List α}, l.getD i [] = c :: rest → c :: rest ∈ l
  | [], _, _, _, h => nomatch h
  | _ :: _, 0, _, _, h => h ▸ List.mem_cons_self _ _
  | _ :: l, i + 1, _, _, h => List.mem_cons_of_mem _ (mem_of_getD_eq_cons l i h)

theorem exists_getD_eq_of_mem {α : Type} :
    ∀ {l : List (List α)} {cs : List α}, cs ∈ l → ∃ i, l.getD i [] = cs
  | _ :: _, _, .head _ => ⟨0, rfl⟩
  | _ :: _, _, .tail _ h => let ⟨i, hi⟩ := exists_getD_eq_of_mem h; ⟨i + 1, hi⟩

section Run

variable [Add V] [Sub V]

/-- Work-item `i` makes its next call, atomically.  There is no step when it has no call left, or
when the call is to a function that neither adds nor subtracts. -/
def Kernel.step (k : Kernel V) (i : Nat) : Option (Kernel V) :=
  match k.pending.getD i [] with
  | [] => none
  | c :: rest => (c.exec k.mem).map fun r => ⟨r.1, k.pending.set i rest⟩

/-- The states a kernel reaches when its work-items make their calls in some interleaving. -/
inductive Kernel.Reach : Kernel V → Kernel V → Prop
  | refl (k : Kernel V) : Kernel.Reach k k
  | step {k k' k'' : Kernel V} (i : Nat) :
      k.step i = some k' → Kernel.Reach k' k'' → Kernel.Reach k k''

variable {k k' : Kernel V} {i : Nat}

/-- What a step is: work-item `i` makes its first call, which leaves the memory `r.1`. -/
theorem Kernel.step_eq_some (h : k.step i = some k') :
    ∃ c rest r, k.pending.getD i [] = c :: rest ∧ c.exec k.mem = some r ∧
      k' = ⟨r.1, k.pending.set i rest⟩ := by
  unfold Kernel.step at h
  split at h
  · cases h
  · obtain ⟨r, hr, rfl⟩ := Option.map_eq_some'.1 h
    exact ⟨_, _, r, ‹_›, hr, rfl⟩

theorem Kernel.size_step (h : k.step i = some k') : k'.size + 1 = k.size := by
  obtain ⟨c, rest, r, hget, -, rfl⟩ := Kernel.step_eq_some h
  have := sum_map_set_of_getD List.length k.pending i rest (List.cons_ne_nil c rest) hget
  simp only [List.length_cons] at this
  simp only [Kernel.size]
  omega

theorem Kernel.Valid.step (hv : k.Valid) (h : k.step i = some k') : k'.Valid := by
  obtain ⟨c, rest, r, hget, -, rfl⟩ := Kernel.step_eq_some h
  intro cs hcs c' hc'
  rcases List.mem_or_eq_of_mem_set hcs with hcs | rfl
  · exact hv cs hcs c' hc'
  · exact hv _ (mem_of_getD_eq_cons _ _ hget) c' (List.mem_cons_of_mem _ hc')

/-- **No work-item is blocked**: one with a call left can always make it. -/
theorem Kernel.Valid.step_isSome (hv : k.Valid) {c : AtomicCall V} {rest : List (AtomicCall V)}
    (hget : k.pending.getD i [] = c :: rest) : (k.step i).isSome := by
  obtain ⟨sub, hsub⟩ := Option.isSome_iff_exists.1
    (hv _ (mem_of_getD_eq_cons _ _ hget) c (List.mem_cons_self _ _))
  unfold Kernel.step
  rw [hget]
  simp [AtomicCall.exec, hsub]

theorem Kernel.Valid.finished_of_stuck (hv : k.Valid) (hstuck : ∀ i, k.step i = none) :
    k.Finished := by
  intro cs hcs
  obtain ⟨i, hi⟩ := exists_getD_eq_of_mem hcs
  cases cs with
  | nil => rfl
  | cons c rest => simpa [hstuck i] using hv.step_isSome hi

/-- **Every kernel can finish**: making the calls one after another reaches a state where all
work-items are done. -/
theorem Kernel.Valid.exists_finished (hv : k.Valid) : ∃ k', Kernel.Reach k k' ∧ k'.Finished := by
  generalize hn : k.size = n
  induction n generalizing k with
  | zero =>
    refine ⟨k, .refl k, fun cs hcs => List.eq_nil_of_length_eq_zero ?_⟩
    exact List.sum_eq_zero_iff.1 hn _ (List.mem_map_of_mem _ hcs)
  | succ n ih =>
    by_cases hf : k.Finished
    · exact ⟨k, .refl k, hf⟩
    obtain ⟨cs, hcs, hne⟩ : ∃ cs ∈ k.pending, cs ≠ [] := by simpa [Kernel.Finished] using hf
    obtain ⟨i, hi⟩ := exists_getD_eq_of_mem hcs
    obtain ⟨c, rest, rfl⟩ := List.exists_cons_of_ne_nil hne
    obtain ⟨k', hk'⟩ := Option.isSome_iff_exists.1 (hv.step_isSome hi)
    obtain ⟨k'', hr, hfin⟩ := ih (hv.step hk') (by have := Kernel.size_step hk'; omega)
    exact ⟨k'', .step i hk' hr, hfin⟩

theorem Kernel.Valid.reach (hv : k.Valid) (h : Kernel.Reach k k') : k'.Valid := by
  induction h with
  | refl => exact hv
  | step _ hs _ ih => exact ih (hv.step hs)

end Run

section Conserve

section Owed

variable [Add V] [Zero V] [Neg V]

/-- What call `c` has still to add to the element at `p`: its value, or the value negated for a
function that subtracts, where `c` addresses `p`. -/
def AtomicCall.delta (c : AtomicCall V) (p : Int) : V :=
  if c.ptr = p then (if c.fn.isSub = some true then -c.val else c.val) else 0

/-- What the calls still to make owe the element at `p`. -/
def Kernel.owed (k : Kernel V) (p : Int) : V :=
  (k.pending.map fun cs => (cs.map (·.delta p)).sum).sum

end Owed

variable [AddCommGroup V]

theorem AtomicCall.exec_delta {c : AtomicCall V} {mem : Int → V} {r : (Int → V) × V}
    (h : c.exec mem = some r) (p : Int) : r.1 p = mem p + c.delta p := by
  obtain ⟨sub, hsub, rfl⟩ := Option.map_eq_some'.1 h
  by_cases hp : c.ptr = p
  · subst hp
    cases sub <;> simp [AtomicCall.delta, hsub, sub_eq_add_neg]
  · simp [AtomicCall.delta, hp, Function.update_noteq (Ne.symm hp)]

/-- **A step loses no update**: the call made moves its value from what is owed into memory. -/
theorem Kernel.step_conserve {k k' : Kernel V} {i : Nat} (h : k.step i = some k') (p : Int) :
    k'.mem p + k'.owed p = k.mem p + k.owed p := by
  obtain ⟨c, rest, r, hget, hr, rfl⟩ := Kernel.step_eq_some h
  have hsum := sum_map_set_of_getD (fun cs => (cs.map (·.delta p)).sum) k.pending i rest
    (List.cons_ne_nil c rest) hget
  simp only [List.map_cons, List.sum_cons, ← add_assoc] at hsum
  have hmoved : k.owed p - c.delta p = (k.pending.set i rest |>.map
      fun cs => (cs.map (·.delta p)).sum).sum := by
    rw [Kernel.owed, ← add_right_cancel hsum, add_sub_cancel_right]
  simp only [Kernel.owed, AtomicCall.exec_delta hr, ← hmoved]
  abel

/-- **No update is lost, in any interleaving**: along every run, the memory plus what the pending
calls owe stays what it was. -/
theorem Kernel.reach_conserve {k k' : Kernel V} (h : Kernel.Reach k k') (p : Int) :
    k'.mem p + k'.owed p = k.mem p + k.owed p := by
  induction h with
  | refl => rfl
  | step _ hs _ ih => rw [ih, Kernel.step_conserve hs]

theorem Kernel.Finished.owed_eq_zero {k : Kernel V} (h : k.Finished) (p : Int) : k.owed p = 0 :=
  List.sum_eq_zero fun x hx => by
    obtain ⟨cs, hcs, rfl⟩ := List.mem_map.1 hx
    simp [h cs hcs]

end Conserve

/-! ### Kernels whose calls are lowered atomic operations -/

/-- One `atomic.add` (`isSub = false`) or `atomic.sub` a work-item makes: the signature it is
typed with, the index tuple and the value. -/
structure AtomicOp (V : Type) where
  isSub : Bool
  sig : AtomicSig
  inds : List Int
  val : V

theorem forall₂_sum_map_eq {α β M : Type} [AddCommMonoid M] {R : α → β → Prop} {l₁ : List α}
    {l₂ : List β} (h : List.Forall₂ R l₁ l₂) {f : α → M} {g : β → M}
    (hfg : ∀ a b, R a b → f a = g b) : (l₁.map f).sum = (l₂.map g).sum := by
  induction h with
  | nil => rfl
  | cons hab _ ih => rw [List.map_cons, List.map_cons, List.sum_cons, List.sum_cons, hfg _ _ hab, ih]

theorem forall₂_forall_mem_right {α β : Type} {R : α → β → Prop} {l₁ : List α} {l₂ : List β}
    (h : List.Forall₂ R l₁ l₂) {P : β → Prop} (hR : ∀ a b, R a b → P b) : ∀ b ∈ l₂, P b := by
  induction h with
  | nil => simp
  | cons hab _ ih => exact List.forall_mem_cons.2 ⟨hR _ _ hab, ih⟩

section Lowered

variable [Ring V] {env : AtomicEnv} {ary : ArrayStruct}

/-- `c` is the call a lowering of `op` emits for the array `ary`, from some compile options. -/
def AtomicOp.LowersTo (env : AtomicEnv) (ary : ArrayStruct) (op : AtomicOp V)
    (c : AtomicCall V) : Prop :=
  ∃ opts o, lowerAtomic env op.isSub op.sig ary op.inds op.val opts = .ok (c, o)

/-- What `op` adds to the element at `p`: its value, negated for `atomic.sub`, where its index
addresses `p`. -/
def AtomicOp.delta (ary : ArrayStruct) (op : AtomicOp V) (p : Int) : V :=
  if getItemPointer op.sig.aryty.layout ary op.inds = p then (if op.isSub then -op.val else op.val)
  else 0

/-- What the operations of all work-items add to the element at `p`. -/
def opsDelta (ary : ArrayStruct) (ops : List (List (AtomicOp V))) (p : Int) : V :=
  (ops.map fun os => (os.map (·.delta ary p)).sum).sum

/-- A lowered call owes each element what its operation adds there. -/
theorem AtomicOp.LowersTo.delta_eq {op : AtomicOp V} {c : AtomicCall V}
    (h : op.LowersTo env ary c) (p : Int) : c.delta p = op.delta ary p ∧ c.fn.isSub.isSome := by
  obtain ⟨opts, o, h⟩ := h
  rcases (lowerAtomic_ok h).2 with ⟨hs, hp, hv⟩ | ⟨hsub, hs, hp, hv⟩
  · cases hb : op.isSub <;> simp [AtomicCall.delta, AtomicOp.delta, hs, hp, hv, hb]
  · simp [AtomicCall.delta, AtomicOp.delta, hs, hp, hv, hsub]

/-- The kernel whose work-items make the lowered calls starts out owing what the operations
add, and every call in it adds or subtracts. -/
theorem Kernel.lowered {ops : List (List (AtomicOp V))} {calls : List (List (AtomicCall V))}
    (hl : List.Forall₂ (List.Forall₂ (AtomicOp.LowersTo env ary)) ops calls) (mem : Int → V) :
    (∀ p, (Kernel.mk mem calls).owed p = opsDelta ary ops p) ∧ (Kernel.mk mem calls).Valid := by
  refine ⟨fun p => Eq.symm (forall₂_sum_map_eq hl fun os cs h => ?_),
    forall₂_forall_mem_right hl fun os cs h => ?_⟩
  · exact forall₂_sum_map_eq h fun op c h' => (h'.delta_eq p).1.symm
  · exact forall₂_forall_mem_right h fun op c h' => (h'.delta_eq 0).2

/-- In every run of such a kernel, a state where no work-item can move has made all calls, and
each element holds its initial value plus what the operations add to it. -/
theorem Kernel.lowered_stuck {ops : List (List (AtomicOp V))}
    {calls : List (List (AtomicCall V))}
    (hl : List.Forall₂ (List.Forall₂ (AtomicOp.LowersTo env ary)) ops calls) (mem : Int → V)
    {k : Kernel V} (hk : Kernel.Reach ⟨mem, calls⟩ k) (hstuck : ∀ i, k.step i = none) :
    k.Finished ∧ ∀ p, k.mem p = mem p + opsDelta ary ops p := by
  obtain ⟨howed, hv⟩ := Kernel.lowered hl mem
  have hfin := (hv.reach hk).finished_of_stuck hstuck
  refine ⟨hfin, fun p => ?_⟩
  have := Kernel.reach_conserve hk p
  rwa [hfin.owed_eq_zero, add_zero, howed] at this

/-- **Atomic updates in any interleaving.**  Let every work-item's atomic operations lower to
calls, on an array whose elements form a ring (the integers of `int32` and `int64` arrays, which
wrap around).  Then along every run, in whatever order the work-items make their calls, the
memory plus what the pending calls still owe is the initial memory plus what all operations add;
a run can always go on until all calls are made; and where no work-item can move, each element
holds its initial value plus the values added to it minus those subtracted. -/
theorem kernel_atomics_total {ops : List (List (AtomicOp V))}
    {calls : List (List (AtomicCall V))}
    (hl : List.Forall₂ (List.Forall₂ (AtomicOp.LowersTo env ary)) ops calls) (mem : Int → V) :
    (∀ k, Kernel.Reach ⟨mem, calls⟩ k →
      (∀ p, k.mem p + k.owed p = mem p + opsDelta ary ops p) ∧
      ((∀ i, k.step i = none) → k.Finished ∧ ∀ p, k.mem p = mem p + opsDelta ary ops p)) ∧
    ∃ k, Kernel.Reach ⟨mem, calls⟩ k ∧ k.Finished := by
  obtain ⟨howed, hv⟩ := Kernel.lowered hl mem
  refine ⟨fun k hk => ⟨fun p => ?_, Kernel.lowered_stuck hl mem hk⟩, hv.exists_finished⟩
  rw [Kernel.reach_conserve hk, howed]

/-- Two work-items of a kernel on an `int32` local array: one adds `5` at index `1`, the other
subtracts `2` there. -/
theorem kernel_atomics_total_addSub :
    List.Forall₂ (List.Forall₂ (AtomicOp.LowersTo ⟨.gpu, 0, true⟩
        (makeArray ⟨"_dppy_lmem", .localMem, 4, 4⟩ int32 [4] .localMem)))
      ([[⟨false, ⟨⟨.int32, 1, .C, .localMem, true⟩, .intp, .int32⟩, [1], 5⟩],
        [⟨true, ⟨⟨.int32, 1, .C, .localMem, true⟩, .intp, .int32⟩, [1], 2⟩]] :
          List (List (AtomicOp (BitVec 32))))
      [[⟨.spirv "__spirv_AtomicIAdd", 4, 5⟩], [⟨.spirv "__spirv_AtomicIAdd", 4, 2 * -1⟩]] ∧
    ((∀ k : Kernel (BitVec 32), Kernel.Reach ⟨fun _ => 0,
      [[⟨.spirv "__spirv_AtomicIAdd", 4, 5⟩], [⟨.spirv "__spirv_AtomicIAdd", 4, 2 * -1⟩]]⟩ k →
      (∀ p, k.mem p + k.owed p = 0 + opsDelta
        (makeArray ⟨"_dppy_lmem", .localMem, 4, 4⟩ int32 [4] .localMem)
        [[⟨false, ⟨⟨.int32, 1, .C, .localMem, true⟩, .intp, .int32⟩, [1], 5⟩],
          [⟨true, ⟨⟨.int32, 1, .C, .localMem, true⟩, .intp, .int32⟩, [1], 2⟩]] p) ∧
      ((∀ i, k.step i = none) → k.Finished ∧ ∀ p, k.mem p = 0 + opsDelta
        (makeArray ⟨"_dppy_lmem", .localMem, 4, 4⟩ int32 [4] .localMem)
        [[⟨false, ⟨⟨.int32, 1, .C, .localMem, true⟩, .intp, .int32⟩, [1], 5⟩],
          [⟨true, ⟨⟨.int32, 1, .C, .localMem, true⟩, .intp, .int32⟩, [1], 2⟩]] p)) ∧
    ∃ k : Kernel (BitVec 32), Kernel.Reach ⟨fun _ => 0,
      [[⟨.spirv "__spirv_AtomicIAdd", 4, 5⟩], [⟨.spirv "__spirv_AtomicIAdd", 4, 2 * -1⟩]]⟩ k ∧
        k.Finished) := by
  refine ⟨?hl, kernel_atomics_total ?hl (fun _ => 0)⟩
  exact .cons (.cons ⟨{}, _, rfl⟩ .nil) (.cons (.cons ⟨{}, _, rfl⟩ .nil) .nil)

/-- **Atomic updates of an array of `_generic_array`.**  Let the extents be not negative, and the
operations index the array in bounds, through an array type of layout `C` or `A`.  Where no
work-item can move, each element holds its initial value plus the values the operations at its
own index tuple add, minus those they subtract: distinct index tuples never share an element. -/
theorem genericArray_atomics {shape : List Int} {dtype : Dtype} {symbolName : String}
    {addrspace : AddrSpace} {a : ArrayStruct} (hshape : ∀ s ∈ shape, 0 ≤ s)
    (ha : genericArray shape dtype symbolName addrspace = .ok a) {ops : List (List (AtomicOp V))}
    {calls : List (List (AtomicCall V))}
    (hl : List.Forall₂ (List.Forall₂ (AtomicOp.LowersTo env a)) ops calls)
    (hops : ∀ os ∈ ops, ∀ op ∈ os, op.sig.aryty.layout ≠ .F ∧ InBounds shape op.inds)
    (mem : Int → V) {k : Kernel V} (hk : Kernel.Reach ⟨mem, calls⟩ k)
    (hstuck : ∀ i, k.step i = none) {t : List Int} (ht : InBounds shape t) :
    k.mem (offset a.strides t) = mem (offset a.strides t) +
      (ops.map fun os => (os.map fun op =>
        if op.inds = t then (if op.isSub then -op.val else op.val) else 0).sum).sum := by
  obtain ⟨hne, -, rfl⟩ := genericArray_eq_ok.1 ha
  have hs : (makeArray ⟨symbolName, addrspace, shape.prod, dtype.itemsize⟩ dtype shape
      addrspace).strides = cStrides dtype.itemsize shape := makeStrides_eq_cStrides _ hne
  have hinj := (bijOn_offset_cStrides
    (show (0 : Int) < dtype.itemsize by exact_mod_cast dtype.itemsize_pos) hshape).injOn
  rw [(Kernel.lowered_stuck hl mem hk hstuck).2, opsDelta]
  congr 1
  refine congrArg List.sum (List.map_congr_left fun os hos => ?_)
  refine congrArg List.sum (List.map_congr_left fun op hop => ?_)
  obtain ⟨hF, hin⟩ := hops os hos op hop
  have hptr : getItemPointer op.sig.aryty.layout
      (makeArray ⟨symbolName, addrspace, shape.prod, dtype.itemsize⟩ dtype shape addrspace) op.inds =
      offset (cStrides dtype.itemsize shape) op.inds := by
    cases hl : op.sig.aryty.layout
    · exact (getItemPointer_C_eq_A hs op.inds).trans (congrArg (offset · op.inds) hs)
    · exact absurd hl hF
    · exact congrArg (offset · op.inds) hs
  simp only [AtomicOp.delta, hptr, hs, hinj.eq_iff hin ht]

/-- The two work-items of `kernel_atomics_total_addSub` on `dppy.local.array(4, int32)`: once
neither can move, the element at index `1` holds `5 - 2` more than it did. -/
theorem genericArray_atomics_addSub :
    (∀ s ∈ [(4 : Int)], 0 ≤ s) ∧
    genericArray [4] int32 "_dppy_lmem" .localMem = .ok (makeArray ⟨"_dppy_lmem", .localMem, 4, 4⟩ int32 [4] .localMem) ∧
    List.Forall₂ (List.Forall₂ (AtomicOp.LowersTo ⟨.gpu, 0, true⟩ (makeArray ⟨"_dppy_lmem", .localMem, 4, 4⟩ int32 [4] .localMem)))
      ([[⟨false, ⟨⟨.int32, 1, .C, .localMem, true⟩, .intp, .int32⟩, [1], 5⟩],
        [⟨true, ⟨⟨.int32, 1, .C, .localMem, true⟩, .intp, .int32⟩, [1], 2⟩]] :
          List (List (AtomicOp (BitVec 32))))
      [[⟨.spirv "__spirv_AtomicIAdd", 4, 5⟩], [⟨.spirv "__spirv_AtomicIAdd", 4, 2 * -1⟩]] ∧
    (∀ os ∈ ([[⟨false, ⟨⟨.int32, 1, .C, .localMem, true⟩, .intp, .int32⟩, [1], 5⟩],
        [⟨true, ⟨⟨.int32, 1, .C, .localMem, true⟩, .intp, .int32⟩, [1], 2⟩]] :
          List (List (AtomicOp (BitVec 32)))),
      ∀ op ∈ os, op.sig.aryty.layout ≠ .F ∧ InBounds [4] op.inds) ∧
    ∃ k : Kernel (BitVec 32), Kernel.Reach ⟨fun _ => 0,
      [[⟨.spirv "__spirv_AtomicIAdd", 4, 5⟩], [⟨.spirv "__spirv_AtomicIAdd", 4, 2 * -1⟩]]⟩ k ∧
      (∀ i, k.step i = none) ∧ InBounds [4] [1] ∧
      k.mem (offset (makeArray ⟨"_dppy_lmem", .localMem, 4, 4⟩ int32 [4] .localMem).strides [1]) = 0 +
        (([[⟨false, ⟨⟨.int32, 1, .C, .localMem, true⟩, .intp, .int32⟩, [1], 5⟩],
        [⟨true, ⟨⟨.int32, 1, .C, .localMem, true⟩, .intp, .int32⟩, [1], 2⟩]] :
          List (List (AtomicOp (BitVec 32)))).map fun os => (os.map fun op =>
            if op.inds = [1] then (if op.isSub then -op.val else op.val) else 0).sum).sum := by
  refine ⟨?hs, ?ha, ?hl, ?hops, _, .step 0 rfl (.step 1 rfl (.refl _)), ?hstuck, ?ht,
    genericArray_atomics ?hs ?ha ?hl ?hops (fun _ => 0) (.step 0 rfl (.step 1 rfl (.refl _)))
      ?hstuck ?ht⟩
  case hs => decide
  case ha => rfl
  case hl => exact .cons (.cons ⟨{}, _, rfl⟩ .nil) (.cons (.cons ⟨{}, _, rfl⟩ .nil) .nil)
  case hops => simp [InBounds]
  case hstuck => intro i; rcases i with _ | _ | i <;> rfl
  case ht => exact .cons ⟨by decide, by decide⟩ .nil

end Lowered

end Kernel

end ParforOffload
