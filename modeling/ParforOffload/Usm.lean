/-
**Moving arrays to and from USM memory: `numba_dppy.utils.array_utils`.**

`as_usm_obj(obj, queue, usm_type, copy)` hands a kernel memory the device can reach.  An object
already backed by a USM allocation (`has_usm_memory`: the object itself, or else its `base`, is
accepted by `dpctl.memory.as_usm_memory`) is returned as it is.  Any other object must be a
`numpy.ndarray` of a supported dtype: a USM allocation of its size is made, of the requested
kind, and its bytes are copied in (`copy_from_numpy_to_usm_obj`).  `copy_to_numpy_from_usm_obj`
copies the bytes of a USM allocation back into an array.  `get_info_from_suai` reads the
`__sycl_usm_array_interface__` of an object, and gives C-order strides where it has none.

Main definitions:

* `ParforOffload.hasUsmMemory`, `ParforOffload.asUsmObj` — the USM memory of an object;
* `ParforOffload.copyFromNumpyToUsmObj`, `ParforOffload.copyToNumpyFromUsmObj` — the copies;
* `ParforOffload.getInfoFromSuai` — the array interface of an object.

Main results:

* `ParforOffload.asUsmObj_eq_ok` — when `as_usm_obj` returns, and what: the object's own
  allocation, whatever `usm_type` and `copy` say, or a new one of the array's size holding its
  bytes; a queue must be given in every case, and a 0-d or empty array is never allocated
  (`np.prod(())` is the float `1.0`, and dpctl refuses zero bytes);
* `ParforOffload.asUsmObj_roundTrip` — an array copied to USM memory by `as_usm_obj` and back by
  `copy_to_numpy_from_usm_obj` into any array of the same byte size gets its bytes back;
* `ParforOffload.getInfoFromSuai_strides` — the strides `get_info_from_suai` gives an array
  without strides are the C-order ones, and they address its elements one to one.
-/

import Mathlib.Algebra.BigOperators.Ring
import ParforOffload.LocalArray

set_option autoImplicit false

namespace ParforOffload

/-! ### Objects -/

/-- A numpy dtype, as `np.dtype` makes it: its name and the size of an item in bytes. -/
structure NpDtype where
  name : String
  itemsize : Nat
  deriving DecidableEq, Repr

/-- `[np.dtype(typ) for typ in supported_numpy_dtype]`: `np.int64` is listed twice, and
`np.uint64` not at all. -/
def supportedNumpyDtype : List NpDtype :=
  [⟨"int32", 4⟩, ⟨"int64", 8⟩, ⟨"uint32", 4⟩, ⟨"int64", 8⟩, ⟨"float32", 4⟩, ⟨"float64", 8⟩]

/-- `str(supported_numpy_dtype)`, as the error messages print the list. -/
def supportedNumpyDtypeRepr : String :=
  "[" ++ ", ".intercalate (supportedNumpyDtype.map fun d => "<class \x27numpy." ++ d.name ++ "\x27>") ++
    "]"

/-- A `numpy.ndarray`: its dtype, its shape, whether it is C-contiguous, and its bytes in C order,
`prod(shape) * itemsize` of them. -/
@[ext]
structure NdArray where
  dtype : NpDtype
  shape : List Nat
  cContiguous : Bool
  data : List UInt8
  data_length : data.length = shape.prod * dtype.itemsize

/-- The kinds of USM allocation. -/
inductive UsmType where
  | shared
  | device
  | host
  deriving DecidableEq, Repr

/-- The `usm_type` string that names a kind. -/
def UsmType.name : UsmType → String
  | .shared => "shared"
  | .device => "device"
  | .host => "host"

/-- A `dpctl.SyclQueue`, by its identity. -/
structure SyclQueue where
  id : Nat
  deriving DecidableEq, Repr

/-- A USM allocation of `dpctl.memory`: its kind, the queue it was made for, and its bytes. -/
structure UsmMem where
  usmType : UsmType
  queue : SyclQueue
  bytes : List UInt8
  deriving DecidableEq, Repr

/-- `usm_mem.size`, in bytes. -/
def UsmMem.size (m : UsmMem) : Nat := m.bytes.length

/-- A Python object as these utilities see it: a `dpctl.memory` object, a `numpy.ndarray` with its
`base`, or an object of another type (printed `typeRepr`), with its `base` if it has one. -/
inductive PyObj where
  | usmMemory (m : UsmMem)
  | ndarray (a : NdArray) (base : Option PyObj)
  | other (typeRepr : String) (base : Option PyObj)

/-- `type(obj)`, as the error messages print it. -/
def PyObj.typeRepr : PyObj → String
  | .usmMemory m => match m.usmType with
    | .shared => "<class \x27dpctl.memory._memory.MemoryUSMShared\x27>"
    | .device => "<class \x27dpctl.memory._memory.MemoryUSMDevice\x27>"
    | .host => "<class \x27dpctl.memory._memory.MemoryUSMHost\x27>"
  | .ndarray .. => "<class \x27numpy.ndarray\x27>"
  | .other t _ => t

/-- `obj.base`, where the object has one that is not `None`. -/
def PyObj.base : PyObj → Option PyObj
  | .usmMemory _ => none
  | .ndarray _ b => b
  | .other _ b => b

/-- The `queue` argument of `as_usm_obj`: `None`, a `dpctl.SyclQueue`, or an object of another
type. -/
inductive QueueArg where
  | none
  | syclQueue (q : SyclQueue)
  | other (typeRepr : String)

/-- The errors these utilities raise. -/
inductive PyErr where
  | typeError (msg : String)
  | valueError (msg : String)
  /-- The `ValueError` that dpctl's `MemoryUSMShared`, `MemoryUSMDevice` and `MemoryUSMHost`
  raise for a byte count that is not a positive integer; its text is dpctl's. -/
  | usmAllocError
  deriving DecidableEq, Repr

/-- A number as NumPy computes it here: its value, and whether it is an integer (else a float). -/
structure NpNum where
  value : Nat
  isInt : Bool
  deriving DecidableEq, Repr

/-- Modelled from NumPy: `np.prod(shape)` is the product of the extents, an integer, except for
the empty shape of a 0-d array, for which it is the float `1.0`. -/
def npProd (shape : List Nat) : NpNum := ⟨shape.prod, shape ≠ []⟩

/-- `x * k` for a Python integer `k`: an integer stays one, a float stays one. -/
def NpNum.mulInt (x : NpNum) (k : Nat) : NpNum := ⟨x.value * k, x.isInt⟩

/-! ### What `dpctl` and CPython do -/

/-- Modelled from dpctl's documentation: `dpctl.memory.as_usm_memory(obj)` (not under src/)
accepts the objects backed by a USM allocation, and raises on any other. -/
def asUsmMemory : PyObj → Option UsmMem
  | .usmMemory m => some m
  | _ => none

/-- Modelled from CPython: `memoryview(obj).cast("B")`, the bytes of an array; CPython casts only
C-contiguous views. -/
def memoryviewCastB (a : NdArray) : Except PyErr (List UInt8) :=
  if a.cContiguous then pure a.data
  else throw (.typeError "memoryview: casts are restricted to C-contiguous views")

/-- Modelled from dpctl's documentation: `usm_mem.copy_from_host(buf)` writes `buf` at the start
of the allocation (its check that `buf` fits never fails here: the callers check the sizes
agree). -/
def UsmMem.copyFromHost (m : UsmMem) (buf : List UInt8) : UsmMem :=
  { m with bytes := buf ++ m.bytes.drop buf.length }

/-- Modelled from dpctl's documentation: `usm_mem.copy_to_host(view)` writes the allocation's bytes
at the start of the array `view` is a cast of, which is as large as the allocation. -/
def UsmMem.copyToHost (m : UsmMem) (a : NdArray) (h : m.size = a.dtype.itemsize * a.shape.prod) :
    NdArray :=
  { a with
    data := m.bytes ++ a.data.drop m.size
    data_length := by
      rw [List.length_append, List.length_drop, a.data_length, ← UsmMem.size, h, Nat.mul_comm]
      omega }

/-- Modelled from dpctl: `MemoryUSMShared(nbytes, queue=q)` and its siblings allocate `nbytes`
bytes when `nbytes` is an integer (`numbers.Integral`) and positive; a float is taken for an
object exposing USM memory, which it is not, and a count of zero is refused, both with a
`ValueError`.  The contents, left uninitialised, are taken to be zero. -/
def UsmMem.alloc (t : UsmType) (q : SyclQueue) (nbytes : NpNum) : Except PyErr UsmMem :=
  if nbytes.isInt ∧ 0 < nbytes.value then pure ⟨t, q, List.replicate nbytes.value 0⟩
  else throw .usmAllocError

/-! ### The utilities -/

/-- The `TypeError` for an object that is neither USM memory nor an array. -/
def notNdarrayMsg (obj : PyObj) : String :=
  "Obj is not USM allocated and is not of type numpy.ndarray. Obj type: " ++ obj.typeRepr

/-- The `ValueError` for an array of a dtype not in `supported_numpy_dtype`. -/
def unsupportedDtypeMsg : String :=
  "dtype is not supprted. Supported dtypes are: " ++ supportedNumpyDtypeRepr

/-- The `ValueError` for an allocation and an array of different sizes. -/
def sizeMismatchMsg (usmSize objSize : Nat) : String :=
  "Size (Bytes) of data does not match. USM allocated memory size " ++ toString usmSize ++
    ", supported object size: " ++ toString objSize

/-- `has_usm_memory(obj)`: the USM memory of the object, or else of its `base`. -/
def hasUsmMemory (obj : PyObj) : Option UsmMem :=
  match asUsmMemory obj with
  | some m => some m
  | none => obj.base.bind asUsmMemory

/-- `copy_from_numpy_to_usm_obj(usm_allocated, obj)`: the allocation of `usm_allocated` once the
bytes of the array `obj` are copied into it. -/
def copyFromNumpyToUsmObj (usmAllocated obj : PyObj) : Except PyErr UsmMem := do
  let some usmMem := hasUsmMemory usmAllocated | throw (.typeError "Source is not USM allocated.")
  let .ndarray a _ := obj | throw (.typeError (notNdarrayMsg obj))
  if a.dtype ∉ supportedNumpyDtype then throw (.valueError unsupportedDtypeMsg)
  if !a.cContiguous then
    throw (.valueError "Only C-contiguous numpy.ndarray is currently supported!")
  let size := a.shape.prod
  if usmMem.size ≠ a.dtype.itemsize * size then
    throw (.valueError (sizeMismatchMsg usmMem.size (a.dtype.itemsize * size)))
  let objMemview ← memoryviewCastB a
  pure (usmMem.copyFromHost objMemview)

/-- `copy_to_numpy_from_usm_obj(usm_allocated, obj)`: the array `obj` once the bytes of the
allocation of `usm_allocated` are copied into it. -/
def copyToNumpyFromUsmObj (usmAllocated obj : PyObj) : Except PyErr NdArray := do
  let some usmMem := hasUsmMemory usmAllocated | throw (.typeError "Source is not USM allocated.")
  let .ndarray a _ := obj | throw (.typeError (notNdarrayMsg obj))
  if a.dtype ∉ supportedNumpyDtype then throw (.valueError unsupportedDtypeMsg)
  let size := a.shape.prod
  if h : usmMem.size ≠ a.dtype.itemsize * size then
    throw (.valueError (sizeMismatchMsg usmMem.size (a.dtype.itemsize * size)))
  else
    let _ ← memoryviewCastB a
    pure (usmMem.copyToHost a (not_not.1 h))

/-- The allocation `as_usm_obj` makes for `usm_type`, or its `ValueError`. -/
def allocUsm (usmType : String) (q : SyclQueue) (nbytes : NpNum) : Except PyErr UsmMem :=
  if usmType = "shared" then UsmMem.alloc .shared q nbytes
  else if usmType = "device" then UsmMem.alloc .device q nbytes
  else if usmType = "host" then UsmMem.alloc .host q nbytes
  else throw (.valueError ("Supported usm_type are: \x27shared\x27, \x27device\x27 and \x27host\x27. " ++
    "Provided: " ++ usmType))

/-- `as_usm_obj(obj, queue, usm_type, copy)`. -/
def asUsmObj (obj : PyObj) (queue : QueueArg) (usmType : String) (copy : Bool) :
    Except PyErr UsmMem := do
  let usmMem := hasUsmMemory obj
  let .syclQueue q := queue | match queue with
    | .other t => throw (.typeError ("queue has to be of dpctl.SyclQueue type. Got " ++ t))
    | _ => throw (.valueError "Queue can not be None. Please provide the SYCL queue to be used.")
  match usmMem with
  | some m => pure m
  | none =>
    let .ndarray a _ := obj | throw (.typeError (notNdarrayMsg obj))
    if a.dtype ∉ supportedNumpyDtype then throw (.valueError unsupportedDtypeMsg)
    let size := npProd a.shape
    let m ← allocUsm usmType q (size.mulInt a.dtype.itemsize)
    if copy then copyFromNumpyToUsmObj (.usmMemory m) obj else pure m

/-- The entries of `__sycl_usm_array_interface__` that `get_info_from_suai` reads: the shape, the
dtype of `typestr`, and the strides, `None` for C order. -/
structure Suai where
  shape : List Nat
  dtype : NpDtype
  strides : Option (List Int)

/-- The strides `get_info_from_suai` builds when the interface has none: `strides = [1] * ndim`,
then `strides[i - 1] = strides[i] * shape[i]` for `i` from `ndim - 1` down to `1`. -/
def suaiStrides (shape : List Nat) : List Int :=
  ((List.range' 1 (shape.length - 1)).reverse).foldl
    (fun strides i => strides.set (i - 1) (strides.getD i 0 * shape.getD i 0))
    (List.replicate shape.length 1)

/-- `get_info_from_suai(obj)`: the USM memory, `total_size`, `shape`, `ndim`, `itemsize`,
`strides` and `dtype` of an object with the interface `suai`; `none` where `as_usm_memory`
raises. -/
def getInfoFromSuai (obj : PyObj) (suai : Suai) :
    Option (UsmMem × Nat × List Nat × Nat × Nat × List Int × NpDtype) := do
  let usmMem ← asUsmMemory obj
  pure (usmMem, suai.shape.prod, suai.shape, suai.shape.length, suai.dtype.itemsize,
    suai.strides.getD (suaiStrides suai.shape), suai.dtype)

/-! ### The copies -/

section Copies

variable {usmAllocated obj : PyObj} {m : UsmMem} {a : NdArray}

theorem UsmMem.copyFromHost_of_length {buf : List UInt8} (h : buf.length = m.size) :
    m.copyFromHost buf = { m with bytes := buf } := by
  simp only [UsmMem.copyFromHost, h, UsmMem.size, List.drop_length, List.append_nil]

/-- **What `copy_from_numpy_to_usm_obj` does.**  It returns exactly when the first object has USM
memory, the second is a C-contiguous array of a supported dtype, and the two have the same size
in bytes; the allocation then holds the array's bytes. -/
theorem copyFromNumpyToUsmObj_eq_ok {m' : UsmMem} :
    copyFromNumpyToUsmObj usmAllocated obj = .ok m' ↔
      ∃ m a b, hasUsmMemory usmAllocated = some m ∧ obj = .ndarray a b ∧
        a.dtype ∈ supportedNumpyDtype ∧ a.cContiguous ∧ m.size = a.dtype.itemsize * a.shape.prod ∧
        m' = { m with bytes := a.data } := by
  unfold copyFromNumpyToUsmObj
  cases hm : hasUsmMemory usmAllocated with
  | none => simp
  | some m =>
    cases obj with
    | ndarray a b =>
      by_cases hd : a.dtype ∈ supportedNumpyDtype <;> by_cases hc : a.cContiguous <;>
        by_cases hs : m.size = a.dtype.itemsize * a.shape.prod <;>
        simp [hd, hc, hs, memoryviewCastB, bind, Except.bind]
      rw [UsmMem.copyFromHost_of_length (by rw [a.data_length, hs, Nat.mul_comm]), eq_comm]
    | _ => simp

theorem UsmMem.copyToHost_data (h : m.size = a.dtype.itemsize * a.shape.prod) :
    (m.copyToHost a h).data = m.bytes := by
  have : a.data.length = m.size := by rw [a.data_length, h, Nat.mul_comm]
  simp only [UsmMem.copyToHost, ← this, List.drop_length, List.append_nil]

/-- **What `copy_to_numpy_from_usm_obj` does.**  It returns exactly when the first object has USM
memory, the second is a C-contiguous array of a supported dtype, and the two have the same size
in bytes; the array then holds the allocation's bytes and is otherwise as it was. -/
theorem copyToNumpyFromUsmObj_eq_ok {a' : NdArray} :
    copyToNumpyFromUsmObj usmAllocated obj = .ok a' ↔
      ∃ m a b, hasUsmMemory usmAllocated = some m ∧ obj = .ndarray a b ∧
        a.dtype ∈ supportedNumpyDtype ∧ a.cContiguous ∧ m.size = a.dtype.itemsize * a.shape.prod ∧
        a'.dtype = a.dtype ∧ a'.shape = a.shape ∧ a'.cContiguous = a.cContiguous ∧
        a'.data = m.bytes := by
  unfold copyToNumpyFromUsmObj
  cases hm : hasUsmMemory usmAllocated with
  | none => simp
  | some m =>
    cases obj with
    | ndarray a b =>
      by_cases hd : a.dtype ∈ supportedNumpyDtype <;> by_cases hc : a.cContiguous <;>
        by_cases hs : m.size = a.dtype.itemsize * a.shape.prod <;>
        simp [hd, hc, hs, memoryviewCastB, bind, Except.bind]
      constructor
      · rintro rfl
        exact ⟨rfl, rfl, hc, UsmMem.copyToHost_data hs⟩
      · rintro ⟨h₁, h₂, h₃, h₄⟩
        ext1
        · exact h₁.symm
        · exact h₂.symm
        · exact hc.trans h₃.symm
        · rw [UsmMem.copyToHost_data hs, h₄]
    | _ => simp

end Copies

/-! ### `as_usm_obj` -/

theorem itemsize_pos : ∀ d ∈ supportedNumpyDtype, 0 < d.itemsize := by decide

theorem UsmMem.alloc_eq_ok {t : UsmType} {q : SyclQueue} {nbytes : NpNum} {m : UsmMem} :
    UsmMem.alloc t q nbytes = .ok m ↔
      nbytes.isInt ∧ 0 < nbytes.value ∧ m = ⟨t, q, List.replicate nbytes.value 0⟩ := by
  unfold UsmMem.alloc
  split_ifs with h
  · simp [h, eq_comm]
  · exact iff_of_false (by simp) fun ⟨h₁, h₂, _⟩ => h ⟨h₁, h₂⟩

/-- The allocation is made exactly when `usm_type` names a kind and the byte count is a positive
integer. -/
theorem allocUsm_eq_ok {usmType : String} {q : SyclQueue} {nbytes : NpNum} {m : UsmMem} :
    allocUsm usmType q nbytes = .ok m ↔ ∃ t : UsmType, usmType = t.name ∧
      nbytes.isInt ∧ 0 < nbytes.value ∧ m = ⟨t, q, List.replicate nbytes.value 0⟩ := by
  unfold allocUsm
  constructor
  · split_ifs with h₁ h₂ h₃ <;> intro h
    exacts [⟨.shared, h₁, UsmMem.alloc_eq_ok.1 h⟩, ⟨.device, h₂, UsmMem.alloc_eq_ok.1 h⟩,
      ⟨.host, h₃, UsmMem.alloc_eq_ok.1 h⟩, nomatch h]
  · rintro ⟨t, rfl, h⟩
    cases t <;> simpa [UsmType.name] using UsmMem.alloc_eq_ok.2 h

/-- For an array without USM memory, given a queue, `as_usm_obj` checks the dtype, allocates, and
copies if asked to. -/
theorem asUsmObj_of_ndarray {a : NdArray} {b : Option PyObj} {q : SyclQueue} {usmType : String}
    {copy : Bool} (hm : hasUsmMemory (.ndarray a b) = none) :
    asUsmObj (.ndarray a b) (.syclQueue q) usmType copy =
      if a.dtype ∉ supportedNumpyDtype then .error (.valueError unsupportedDtypeMsg)
      else allocUsm usmType q ((npProd a.shape).mulInt a.dtype.itemsize) >>= fun m =>
        if copy then copyFromNumpyToUsmObj (.usmMemory m) (.ndarray a b) else pure m := by
  by_cases hd : a.dtype ∈ supportedNumpyDtype <;>
    simp [asUsmObj, hm, hd, bind, Except.bind]

/-- The allocation for an array is made exactly when its shape is not empty and it has an
element: `np.prod` of the empty shape is the float `1.0`, and dpctl refuses zero bytes. -/
theorem allocUsm_array_eq_ok {a : NdArray} (hd : a.dtype ∈ supportedNumpyDtype) {usmType : String}
    {q : SyclQueue} {m : UsmMem} :
    allocUsm usmType q ((npProd a.shape).mulInt a.dtype.itemsize) = .ok m ↔
      a.shape ≠ [] ∧ 0 < a.shape.prod ∧
        ∃ t : UsmType, usmType = t.name ∧
          m = ⟨t, q, List.replicate (a.shape.prod * a.dtype.itemsize) 0⟩ := by
  simp only [allocUsm_eq_ok, npProd, NpNum.mulInt, decide_eq_true_eq,
    Nat.mul_pos_iff_of_pos_right (itemsize_pos _ hd)]
  exact ⟨fun ⟨t, ht, hs, hp, e⟩ => ⟨hs, hp, t, ht, e⟩, fun ⟨hs, hp, t, ht, e⟩ => ⟨t, ht, hs, hp, e⟩⟩

/-- **When `as_usm_obj` returns, and what.**  A queue must be given, whatever the object.  An
object backed by USM memory is returned as it is, whatever `usm_type` and `copy` say.  Any other
object must be an array of a supported dtype with a non-empty shape and at least one element,
`usm_type` must name a kind of allocation, and, to be copied, the array must be C-contiguous; the
result is then a new allocation of that kind, on the queue, of the array's size, holding the
array's bytes if `copy` is set. -/
theorem asUsmObj_eq_ok {obj : PyObj} {queue : QueueArg} {usmType : String} {copy : Bool}
    {m : UsmMem} :
    asUsmObj obj queue usmType copy = .ok m ↔
      ∃ q, queue = .syclQueue q ∧
        (hasUsmMemory obj = some m ∨
          hasUsmMemory obj = none ∧ ∃ a b t, obj = .ndarray a b ∧ a.dtype ∈ supportedNumpyDtype ∧
            a.shape ≠ [] ∧ 0 < a.shape.prod ∧ usmType = UsmType.name t ∧ (copy → a.cContiguous) ∧
            m = ⟨t, q, if copy then a.data else
              List.replicate (a.shape.prod * a.dtype.itemsize) 0⟩) := by
  cases queue with
  | none => simp [asUsmObj]
  | other t => simp [asUsmObj]
  | syclQueue q =>
    cases hm : hasUsmMemory obj with
    | some m₀ => simp [asUsmObj, hm]
    | none =>
      cases obj with
      | ndarray a b =>
        rw [asUsmObj_of_ndarray hm]
        by_cases hd : a.dtype ∈ supportedNumpyDtype
        · simp only [hd, not_true_eq_false, ↓reduceIte, Except.bind_eq_ok, allocUsm_array_eq_ok hd]
          cases copy <;> simp [copyFromNumpyToUsmObj_eq_ok, hasUsmMemory, asUsmMemory, hd]
          constructor
          · rintro ⟨_, ⟨hs, hp, t, ht, rfl⟩, hc, -, rfl⟩
            exact ⟨hs, hp, t, ht, hc, rfl⟩
          · rintro ⟨hs, hp, t, ht, hc, rfl⟩
            exact ⟨_, ⟨hs, hp, t, ht, rfl⟩, hc, by simp [UsmMem.size, Nat.mul_comm], rfl⟩
        · simp [hd]
      | usmMemory m₀ => simp [hasUsmMemory, asUsmMemory] at hm
      | other t b => simp [asUsmObj, hm]

/-- **The round trip through USM memory.**  An array of a supported dtype, C-contiguous, not
backed by USM memory, with a non-empty shape and at least one element, is copied by `as_usm_obj`
to a new allocation of any kind; copied back by `copy_to_numpy_from_usm_obj` into any
C-contiguous array of a supported dtype and the same size in bytes, it gives that array its
bytes. -/
theorem asUsmObj_roundTrip {a : NdArray} {b : Option PyObj} (hm : hasUsmMemory (.ndarray a b) = none)
    (hd : a.dtype ∈ supportedNumpyDtype) (hc : a.cContiguous) (hs : a.shape ≠ [])
    (hp : 0 < a.shape.prod) (q : SyclQueue) (t : UsmType)
    {a₂ : NdArray} (b₂ : Option PyObj) (hd₂ : a₂.dtype ∈ supportedNumpyDtype)
    (hc₂ : a₂.cContiguous)
    (hsize : a₂.dtype.itemsize * a₂.shape.prod = a.dtype.itemsize * a.shape.prod) :
    ∃ m, asUsmObj (.ndarray a b) (.syclQueue q) t.name true = .ok m ∧
      ∃ a₂', copyToNumpyFromUsmObj (.usmMemory m) (.ndarray a₂ b₂) = .ok a₂' ∧
        a₂'.data = a.data ∧ a₂'.dtype = a₂.dtype ∧ a₂'.shape = a₂.shape := by
  have hsz : (⟨t, q, a.data⟩ : UsmMem).size = a₂.dtype.itemsize * a₂.shape.prod := by
    rw [hsize, UsmMem.size, a.data_length, Nat.mul_comm]
  refine ⟨⟨t, q, a.data⟩, asUsmObj_eq_ok.2 ⟨q, rfl, .inr ⟨hm, a, b, t, rfl, hd, hs, hp, rfl,
    fun _ => hc, rfl⟩⟩, (⟨t, q, a.data⟩ : UsmMem).copyToHost a₂ hsz,
    copyToNumpyFromUsmObj_eq_ok.2 ⟨⟨t, q, a.data⟩, a₂, b₂, rfl, rfl, hd₂, hc₂, hsz, rfl, rfl, rfl,
      UsmMem.copyToHost_data hsz⟩, UsmMem.copyToHost_data hsz, rfl, rfl⟩

/-- An `int32` array `[1, 2]` goes to shared USM memory and comes back into a `float32` array of
two elements as its bytes. -/
theorem asUsmObj_roundTrip_int32 :
    hasUsmMemory (.ndarray ⟨⟨"int32", 4⟩, [2], true, [1, 0, 0, 0, 2, 0, 0, 0], rfl⟩ none) = none ∧
      (⟨"int32", 4⟩ : NpDtype) ∈ supportedNumpyDtype ∧ ([2] : List Nat) ≠ [] ∧
      0 < ([2] : List Nat).prod ∧ (⟨"float32", 4⟩ : NpDtype) ∈ supportedNumpyDtype ∧
      ∃ m, asUsmObj (.ndarray ⟨⟨"int32", 4⟩, [2], true, [1, 0, 0, 0, 2, 0, 0, 0], rfl⟩ none)
          (.syclQueue ⟨0⟩) UsmType.shared.name true = .ok m ∧
        ∃ a₂', copyToNumpyFromUsmObj (.usmMemory m)
            (.ndarray ⟨⟨"float32", 4⟩, [2], true, List.replicate 8 0, rfl⟩ none) = .ok a₂' ∧
          a₂'.data = [1, 0, 0, 0, 2, 0, 0, 0] ∧ a₂'.dtype = ⟨"float32", 4⟩ ∧ a₂'.shape = [2] :=
  ⟨rfl, by decide, by decide, by decide, by decide,
    asUsmObj_roundTrip (by rfl) (by decide) (by rfl) (by decide) (by decide) ⟨0⟩ .shared none
      (by decide) (by rfl) (by rfl)⟩

/-! ### The strides of `get_info_from_suai` -/

section Strides

theorem getD_replicate_append {α : Type} (x d : α) (l : List α) :
    ∀ k j, (List.replicate k x ++ l).getD (k + j) d = l.getD j d
  | 0, j => by rw [List.replicate_zero, List.nil_append, Nat.zero_add]
  | k + 1, j => by
    rw [List.replicate_succ, List.cons_append, Nat.add_right_comm, List.getD_cons_succ,
      getD_replicate_append x d l k j]

theorem set_replicate_append {α : Type} (x v : α) (l : List α) :
    ∀ k, (List.replicate (k + 1) x ++ l).set k v = List.replicate k x ++ v :: l
  | 0 => rfl
  | k + 1 => by
    rw [List.replicate_succ, List.cons_append, List.set_cons_succ, set_replicate_append x v l k,
      List.replicate_succ, List.cons_append]

/-- One step of the loop of `get_info_from_suai`: once the strides from `k + 1` on are the C-order
ones, setting `strides[k] = strides[k + 1] * shape[k + 1]` makes those from `k` on so. -/
theorem suaiStrides_step (shape : List Nat) {k : Nat} (hk : k + 1 < shape.length) :
    (List.replicate (k + 1) 1 ++ cStrides 1 ((shape.drop (k + 1)).map Nat.cast)).set k
        ((List.replicate (k + 1) 1 ++ cStrides 1 ((shape.drop (k + 1)).map Nat.cast)).getD (k + 1) 0 *
          (shape.getD (k + 1) 0 : Int)) =
      List.replicate k 1 ++ cStrides 1 ((shape.drop k).map Nat.cast) := by
  have h := getD_replicate_append (1 : Int) 0 (cStrides 1 ((shape.drop (k + 1)).map Nat.cast)) (k + 1) 0
  rw [Nat.add_zero] at h
  rw [h, set_replicate_append, List.drop_eq_getElem_cons (by omega : k < shape.length),
    List.drop_eq_getElem_cons hk]
  simp only [List.map_cons, cStrides, List.getD_cons_zero]
  simp only [List.getD_eq_getElem?_getD, List.getElem?_eq_getElem hk, Option.getD_some,
    List.prod_cons]
  congr 2
  ring

/-- **The loop of `get_info_from_suai`.**  Run from `strides[k]` down to `strides[0]`, on strides
whose entries from `k` on are already the C-order ones, it gives the C-order strides. -/
theorem foldl_suaiStrides (shape : List Nat) :
    ∀ k, k < shape.length →
      ((List.range' 1 k).reverse).foldl
          (fun strides i => strides.set (i - 1) (strides.getD i 0 * (shape.getD i 0 : Int)))
          (List.replicate k 1 ++ cStrides 1 ((shape.drop k).map Nat.cast)) =
        cStrides 1 (shape.map Nat.cast)
  | 0, _ => by simp
  | k + 1, hk => by
    rw [List.range'_concat, List.reverse_append, List.reverse_singleton, List.singleton_append,
      List.foldl_cons, Nat.one_mul, Nat.add_comm 1 k, Nat.add_sub_cancel, suaiStrides_step shape hk]
    exact foldl_suaiStrides shape k (by omega)

/-- The strides `get_info_from_suai` builds are the C-order element strides. -/
theorem suaiStrides_eq_cStrides (shape : List Nat) :
    suaiStrides shape = cStrides 1 (shape.map Nat.cast) := by
  rcases Nat.eq_zero_or_pos shape.length with h | h
  · rw [List.length_eq_zero.1 h]
    rfl
  · have hinit : List.replicate shape.length (1 : Int) =
        List.replicate (shape.length - 1) 1 ++
          cStrides 1 ((shape.drop (shape.length - 1)).map Nat.cast) := by
      rw [List.drop_eq_getElem_cons (by omega), Nat.sub_add_cancel h, List.drop_length]
      simp [cStrides, ← List.replicate_succ', Nat.sub_add_cancel h]
    rw [suaiStrides, hinit]
    exact foldl_suaiStrides shape _ (by omega)

/-- **The strides `get_info_from_suai` gives.**  For a USM memory object whose interface has no
strides, `get_info_from_suai` returns the memory, `total_size = prod(shape)`, and the C-order
element strides; these map the in-bounds index tuples one to one onto the element numbers
`0, …, total_size - 1`. -/
theorem getInfoFromSuai_strides (m : UsmMem) (shape : List Nat) (dtype : NpDtype) :
    getInfoFromSuai (.usmMemory m) ⟨shape, dtype, none⟩ = some (m, shape.prod, shape,
        shape.length, dtype.itemsize, cStrides 1 (shape.map Nat.cast), dtype) ∧
      Set.BijOn (offset (cStrides 1 (shape.map Nat.cast))) {t | InBounds (shape.map Nat.cast) t}
        {o | 0 ≤ o ∧ o < shape.prod} := by
  refine ⟨by simp [getInfoFromSuai, asUsmMemory, suaiStrides_eq_cStrides], ?_⟩
  have hset : {o : Int | 0 ≤ o ∧ o < shape.prod} =
      {o | ∃ k, 0 ≤ k ∧ k < (shape.map Nat.cast).prod ∧ o = k * 1} := by
    ext o
    rw [Set.mem_setOf_eq, Set.mem_setOf_eq, ← Nat.cast_list_prod]
    exact ⟨fun ⟨h₀, h₁⟩ => ⟨o, h₀, h₁, (Int.mul_one o).symm⟩,
      fun ⟨k, h₀, h₁, he⟩ => he ▸ (Int.mul_one k).symm ▸ ⟨h₀, h₁⟩⟩
  rw [hset]
  exact bijOn_offset_cStrides one_pos (by simp)

end Strides

end ParforOffload
