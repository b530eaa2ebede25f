/-
**Arrays in local and private memory: `_generic_array` and `_make_array`.**

`dppy.local.array(shape, dtype)` and `dppy.private.array(shape, dtype)`, with a literal shape,
lower to `_generic_array`.  It allocates an LLVM array of `reduce(operator.mul, shape)` elements of
the dtype, as a global variable of the local address space or as an `alloca` in the private one,
and hands it to `_make_array`, which fills the array structure with the data pointer, the shape,
the C-order strides and the item size.  The only check on the shape is `elemcount <= 0`, made on
the product and only for local memory.

Main definitions:

* `ParforOffload.genericArray`, `ParforOffload.makeArray`, `ParforOffload.makeStrides` — the
  lowering;
* `ParforOffload.indexTuples`, `ParforOffload.InBounds`, `ParforOffload.offset` — the index
  tuples of a shape and the byte offset the strides give each.

Main results:

* `ParforOffload.offsets_indexTuples` — for extents that are not negative, the offsets of the index
  tuples, in lexicographic order, are `0, w, 2w, …, (n - 1) w`;
* `ParforOffload.genericArray_spec` — for such a shape, an array `_generic_array` returns is backed
  by its allocation of `n = ∏ s_j` elements, there are `n` in-bounds tuples, and the strides map
  them one to one onto the offsets of the elements;
* `ParforOffload.genericArray_negative_extents` — local memory accepts the shape `(-1, -2)`: two
  elements are allocated, and no index tuple is in bounds.
-/

import Mathlib.Algebra.Order.BigOperators.GroupWithZero.List
import Mathlib.Algebra.Order.Ring.Int
import Mathlib.Data.List.Forall2
import Mathlib.Data.Set.Function
import Mathlib.Tactic.Ring
import ParforOffload.Python

set_option autoImplicit false

namespace ParforOffload

/-! ### The lowering -/

/-- Modelled from `numba_dppy.utils.address_space` (not under `src/`): the five OpenCL address
spaces. -/
inductive AddrSpace where
  | privateMem
  | globalMem
  | constantMem
  | localMem
  | genericMem
  deriving DecidableEq, Repr

/-- The name the `NotImplementedError` of `_generic_array` prints for an address space. -/
def AddrSpace.name : AddrSpace → String
  | .privateMem => "PRIVATE"
  | .globalMem => "GLOBAL"
  | .constantMem => "CONSTANT"
  | .localMem => "LOCAL"
  | .genericMem => "GENERIC"

/-- A dtype as `_generic_array` reads it: its name, whether it is in `types.number_domain`, and the
ABI size of its LLVM type, which is positive. -/
structure Dtype where
  name : String
  isNumber : Bool
  itemsize : Nat
  itemsize_pos : 0 < itemsize

/-- The memory `_generic_array` allocates: an LLVM array of `elemcount` elements of `itemsize`
bytes, named `symbol_name`, in an address space. -/
structure Alloc where
  symbol : String
  addrspace : AddrSpace
  elemcount : Int
  itemsize : Nat
  deriving DecidableEq, Repr

/-- The array `_make_array` populates: its type's rank and address space, the data pointer (a
bitcast of the allocation), the shape, the strides and the item size; `meminfo` is `None`. -/
structure ArrayStruct where
  ndim : Nat
  addrspace : AddrSpace
  data : Alloc
  shape : List Int
  strides : List Int
  itemsize : Nat
  deriving DecidableEq, Repr

/-- `reduce(operator.mul, shape)`: a `TypeError` on an empty shape. -/
def elemCount : List Int → Except String Int
  | [] => .error "reduce() of empty iterable with no initial value"
  | s :: ss => .ok (ss.foldl (· * ·) s)

/-- The strides of `_make_array`: `rstrides` starts at the item size and appends, for each extent
after the first from the last one inward, that extent times its last stride; the strides are
`rstrides` reversed.  The list is kept newest first, so that `rstrides[-1]` is its head and the
list is `reversed(rstrides)` itself. -/
def makeStrides (itemsize : Int) (shape : List Int) : List Int :=
  (shape.drop 1).reverse.foldl (fun rstrides lastsize => lastsize * rstrides.headD 0 :: rstrides)
    [itemsize]

/-- `_make_array(context, builder, dataptr, dtype, shape, addrspace=addrspace)`. -/
def makeArray (dataptr : Alloc) (dtype : Dtype) (shape : List Int) (addrspace : AddrSpace) :
    ArrayStruct where
  ndim := shape.length
  addrspace := addrspace
  data := dataptr
  shape := shape
  strides := makeStrides dtype.itemsize shape
  itemsize := dtype.itemsize

/-- `_generic_array(context, builder, shape, dtype, symbol_name, addrspace)`. -/
def genericArray (shape : List Int) (dtype : Dtype) (symbolName : String) (addrspace : AddrSpace) :
    Except String ArrayStruct := do
  let elemcount ← elemCount shape
  let gvmem : Alloc := ⟨symbolName, addrspace, elemcount, dtype.itemsize⟩
  match addrspace with
  | .localMem =>
    if elemcount ≤ 0 then throw "array length <= 0"
    if !dtype.isNumber then throw ("unsupported type: " ++ dtype.name)
  | .privateMem => pure ()
  | a => throw ("addrspace " ++ a.name)
  return makeArray gvmem dtype shape addrspace

/-- `dppy_private_array_integer`: `dppy.private.array(length, dtype)`. -/
def dppyPrivateArrayInteger (length : Int) (dtype : Dtype) : Except String ArrayStruct :=
  genericArray [length] dtype "_dppy_pmem" .privateMem

/-- `dppy_private_array_tuple`: `dppy.private.array(shape, dtype)` with a tuple shape. -/
def dppyPrivateArrayTuple (shape : List Int) (dtype : Dtype) : Except String ArrayStruct :=
  genericArray shape dtype "_dppy_pmem" .privateMem

/-- `dppy_local_array_integer`: `dppy.local.array(length, dtype)`. -/
def dppyLocalArrayInteger (length : Int) (dtype : Dtype) : Except String ArrayStruct :=
  genericArray [length] dtype "_dppy_lmem" .localMem

/-- `dppy_local_array_tuple`: `dppy.local.array(shape, dtype)` with a tuple shape. -/
def dppyLocalArrayTuple (shape : List Int) (dtype : Dtype) : Except String ArrayStruct :=
  genericArray shape dtype "_dppy_lmem" .localMem

/-- The dtype `float32`, a number of 4 bytes. -/
def float32 : Dtype := ⟨"float32", true, 4, by decide⟩

/-- The dtype `int32`, a number of 4 bytes. -/
def int32 : Dtype := ⟨"int32", true, 4, by decide⟩

/-! ### Index tuples and offsets -/

/-- The index tuples of a shape, in lexicographic order: each index runs over `range(s)`. -/
def indexTuples (shape : List Int) : List (List Int) :=
  loopTuples (shape.map (pyRange 0))

/-- An index tuple in bounds of a shape: one index for each extent, each in `[0, s)`. -/
def InBounds (shape t : List Int) : Prop :=
  List.Forall₂ (fun i s => 0 ≤ i ∧ i < s) t shape

/-- The byte offset the strides give an index tuple. -/
def offset (strides t : List Int) : Int :=
  (List.zipWith (· * ·) t strides).sum

/-- The C-order strides of a shape for items of `w` bytes: `stride_j = w * ∏_{l > j} s_l`. -/
def cStrides (w : Int) : List Int → List Int
  | [] => []
  | _ :: ss => ss.prod * w :: cStrides w ss

/-! ### What `_generic_array` returns -/

section Lower

theorem elemCount_cons (s : Int) (ss : List Int) : elemCount (s :: ss) = .ok (s :: ss).prod := by
  have h : ∀ (a : Int) (l : List Int), l.foldl (· * ·) a = a * l.prod := by
    intro a l
    induction l generalizing a with
    | nil => simp
    | cons x l ih => rw [List.foldl_cons, ih, List.prod_cons, Int.mul_assoc]
  rw [elemCount, h, List.prod_cons]

/-- **What `_generic_array` does.**  It returns exactly when the shape is not empty and either the
memory is private, or it is local, the product of the extents is positive and the dtype is a
number; the array is then `_make_array` of the allocation of `∏ s_j` elements. -/
theorem genericArray_eq_ok {shape : List Int} {dtype : Dtype} {symbolName : String}
    {addrspace : AddrSpace} {a : ArrayStruct} :
    genericArray shape dtype symbolName addrspace = .ok a ↔
      shape ≠ [] ∧ (addrspace = .privateMem ∨
        addrspace = .localMem ∧ 0 < shape.prod ∧ dtype.isNumber = true) ∧
      a = makeArray ⟨symbolName, addrspace, shape.prod, dtype.itemsize⟩ dtype shape addrspace := by
  cases shape with
  | nil => simp [genericArray, elemCount, bind, Except.bind]
  | cons s ss =>
    cases addrspace <;> simp [genericArray, elemCount_cons, bind, Except.bind, pure, Except.pure,
      throw, throwThe, MonadExceptOf.throw]
    · exact eq_comm
    · by_cases h : s * ss.prod ≤ 0
      · simp [h, not_lt.2 h]
      · cases hn : dtype.isNumber <;> simp [h, hn, eq_comm, lt_of_not_le h]

end Lower

/-! ### The offsets of the index tuples -/

section Offsets

/-- `_make_array`'s strides are the C-order strides. -/
theorem makeStrides_eq_cStrides (w : Int) {shape : List Int} (hs : shape ≠ []) :
    makeStrides w shape = cStrides w shape := by
  obtain ⟨x, l, rfl⟩ := List.exists_cons_of_ne_nil hs
  rw [makeStrides, List.drop_one, List.tail_cons]
  clear hs
  induction l generalizing x with
  | nil => simp [cStrides]
  | cons y l ih =>
    rw [List.reverse_cons, List.foldl_append, ih y]
    simp [cStrides, Int.mul_assoc]

theorem indexTuples_cons (s : Int) (ss : List Int) :
    indexTuples (s :: ss) = (pyRange 0 s).flatMap fun i => (indexTuples ss).map (i :: ·) := rfl

theorem range_mul (m p : Nat) :
    List.range (m * p) = (List.range m).flatMap fun i => (List.range p).map (i * p + ·) := by
  induction m with
  | zero => simp
  | succ m ih => rw [Nat.succ_mul, List.range_add, ih, List.range_succ, List.flatMap_append]; simp

/-- **The offsets of the index tuples.**  For extents that are not negative, the C-order strides
give the index tuples, in lexicographic order, the offsets `0, w, 2w, …, (n - 1) w`, where `n` is
the product of the extents. -/
theorem offsets_indexTuples (w : Int) :
    ∀ (shape : List Int), (∀ s ∈ shape, 0 ≤ s) →
      (indexTuples shape).map (offset (cStrides w shape)) = (pyRange 0 shape.prod).map (· * w)
  | [], _ => by simp [indexTuples, loopTuples, offset, cStrides, show pyRange 0 1 = [0] from rfl]
  | s :: ss, hs => by
    obtain ⟨m, rfl⟩ := Int.eq_ofNat_of_zero_le (hs s (List.mem_cons_self _ _))
    have hss : ∀ x ∈ ss, 0 ≤ x := fun x hx => hs x (List.mem_cons_of_mem _ hx)
    obtain ⟨p, hp⟩ := Int.eq_ofNat_of_zero_le (List.prod_nonneg hss)
    have ih := offsets_indexTuples w ss hss
    rw [hp] at ih
    calc (indexTuples (↑m :: ss)).map (offset (cStrides w (↑m :: ss)))
        = (pyRange 0 m).flatMap fun i =>
            ((indexTuples ss).map (offset (cStrides w ss))).map (i * (p * w) + ·) := by
          simp only [indexTuples_cons, List.map_flatMap, List.map_map, cStrides, hp]
          rfl
      _ = (pyRange 0 m).flatMap fun i => (pyRange 0 p).map fun k => (i * p + k) * w := by
          rw [ih]
          refine List.flatMap_congr fun i _ => ?_
          rw [List.map_map]
          exact List.map_congr_left fun k _ => by simp only [Function.comp_apply]; ring
      _ = (pyRange 0 (↑m :: ss).prod).map (· * w) := by
          rw [List.prod_cons, hp, ← Nat.cast_mul, pyRange_zero_natCast, pyRange_zero_natCast,
            pyRange_zero_natCast, range_mul]
          simp only [List.map_flatMap, List.flatMap_map, List.map_map]
          refine List.flatMap_congr fun i _ => ?_
          exact List.map_congr_left fun k _ => by simp only [Function.comp_apply]; push_cast; ring

theorem mem_indexTuples {shape t : List Int} : t ∈ indexTuples shape ↔ InBounds shape t := by
  rw [indexTuples, mem_loopTuples, List.forall₂_map_right_iff]
  simp only [mem_pyRange, InBounds]

/-- For items of positive size, the offsets `0, w, …, (n - 1) w` of the elements are distinct. -/
theorem nodup_elemOffsets {w : Int} (hw : 0 < w) (n : Nat) : ((pyRange 0 n).map (· * w)).Nodup := by
  rw [pyRange_zero_natCast, List.map_map]
  exact (List.nodup_range n).map fun a b h => by exact_mod_cast Int.eq_of_mul_eq_mul_right hw.ne' h

/-- For items of positive size and extents that are not negative, the C-order strides map the
in-bounds index tuples one to one onto the offsets `0, w, …, (n - 1) w` of the `n` elements. -/
theorem bijOn_offset_cStrides {w : Int} (hw : 0 < w) {shape : List Int}
    (hshape : ∀ s ∈ shape, 0 ≤ s) :
    Set.BijOn (offset (cStrides w shape)) {t | InBounds shape t}
      {o | ∃ k, 0 ≤ k ∧ k < shape.prod ∧ o = k * w} := by
  obtain ⟨n, hn⟩ := Int.eq_ofNat_of_zero_le (List.prod_nonneg hshape)
  have hoff := offsets_indexTuples w shape hshape
  rw [hn] at hoff ⊢
  have hnd : ((indexTuples shape).map (offset (cStrides w shape))).Nodup :=
    hoff ▸ nodup_elemOffsets hw n
  have hmem : ∀ o, o ∈ (indexTuples shape).map (offset (cStrides w shape)) ↔
      ∃ k, 0 ≤ k ∧ k < (n : Int) ∧ o = k * w := by
    intro o
    simp only [hoff, List.mem_map, mem_pyRange, and_assoc, eq_comm]
  refine ⟨fun t ht => (hmem _).1 (List.mem_map_of_mem _ (mem_indexTuples.2 ht)),
    fun t₁ h₁ t₂ h₂ => List.inj_on_of_nodup_map hnd (mem_indexTuples.2 h₁) (mem_indexTuples.2 h₂),
    fun o ho => ?_⟩
  obtain ⟨t, ht, rfl⟩ := List.mem_map.1 ((hmem o).2 ho)
  exact ⟨t, mem_indexTuples.1 ht, rfl⟩

/-- The C-order strides for items of `w` bytes are `w` times those for items of one byte. -/
theorem offset_cStrides (w : Int) :
    ∀ (shape t : List Int), offset (cStrides w shape) t = w * offset (cStrides 1 shape) t
  | [], _ => by simp [offset, cStrides]
  | _ :: _, [] => by simp [offset, cStrides]
  | s :: ss, i :: t => by
    have ih := offset_cStrides w ss t
    simp only [offset, cStrides, List.zipWith_cons_cons, List.sum_cons] at ih ⊢
    rw [ih]
    ring

end Offsets

/-! ### The array is backed exactly by its allocation -/

section Spec

/-- **What an array of `_generic_array` addresses.**  For a shape whose extents are not negative,
an array `_generic_array` returns is `_make_array` of the allocation of `n = ∏ s_j` elements, its
strides are the C-order ones, there are exactly `n` in-bounds index tuples, and the strides map
them one to one onto the offsets `0, w, …, (n - 1) w` of the allocated elements. -/
theorem genericArray_spec {shape : List Int} {dtype : Dtype} {symbolName : String}
    {addrspace : AddrSpace} {a : ArrayStruct} (hshape : ∀ s ∈ shape, 0 ≤ s)
    (h : genericArray shape dtype symbolName addrspace = .ok a) :
    a.data = ⟨symbolName, addrspace, shape.prod, dtype.itemsize⟩ ∧ a.shape = shape ∧
      a.strides = cStrides dtype.itemsize shape ∧
      (indexTuples a.shape).Nodup ∧ (indexTuples a.shape).length = a.data.elemcount.toNat ∧
      Set.BijOn (offset a.strides) {t | InBounds a.shape t}
        {o | ∃ k, 0 ≤ k ∧ k < a.data.elemcount ∧ o = k * a.itemsize} := by
  obtain ⟨hne, -, rfl⟩ := genericArray_eq_ok.1 h
  obtain ⟨n, hn⟩ := Int.eq_ofNat_of_zero_le (List.prod_nonneg hshape)
  have hw : (0 : Int) < dtype.itemsize := by exact_mod_cast dtype.itemsize_pos
  have hoff := offsets_indexTuples (dtype.itemsize : Int) shape hshape
  rw [hn] at hoff
  simp only [makeArray, makeStrides_eq_cStrides _ hne, true_and]
  refine ⟨(hoff ▸ nodup_elemOffsets hw n : List.Nodup _).of_map _, ?_, bijOn_offset_cStrides hw hshape⟩
  simpa only [List.length_map, pyRange_zero_natCast, List.length_range, hn, Int.toNat_ofNat]
    using congrArg List.length hoff

theorem genericArray_spec_twoByThree :
    (∀ s ∈ [(2 : Int), 3], 0 ≤ s) ∧
      genericArray [2, 3] float32 "_dppy_lmem" .localMem =
        .ok (makeArray ⟨"_dppy_lmem", .localMem, 6, 4⟩ float32 [2, 3] .localMem) ∧
      ((makeArray ⟨"_dppy_lmem", .localMem, 6, 4⟩ float32 [2, 3] .localMem).data =
          ⟨"_dppy_lmem", .localMem, [(2 : Int), 3].prod, float32.itemsize⟩ ∧
        (makeArray ⟨"_dppy_lmem", .localMem, 6, 4⟩ float32 [2, 3] .localMem).shape = [2, 3] ∧
        (makeArray ⟨"_dppy_lmem", .localMem, 6, 4⟩ float32 [2, 3] .localMem).strides =
          cStrides float32.itemsize [2, 3] ∧
        (indexTuples [2, 3]).Nodup ∧ (indexTuples [2, 3]).length = (6 : Int).toNat ∧
        Set.BijOn (offset [12, 4]) {t | InBounds [2, 3] t}
          {o | ∃ k, 0 ≤ k ∧ k < (6 : Int) ∧ o = k * (4 : Nat)}) :=
  ⟨by decide, rfl, genericArray_spec (by decide) rfl⟩

/-- Local memory accepts the shape `(-1, -2)`: the product `2` passes the check `elemcount <= 0`,
two elements are allocated, the strides are `(-8, 4)`, and no index tuple is in bounds. -/
theorem genericArray_negative_extents :
    ∃ a, dppyLocalArrayTuple [-1, -2] float32 = .ok a ∧ a.data.elemcount = 2 ∧
      a.strides = [-8, 4] ∧ indexTuples a.shape = [] :=
  ⟨_, rfl, rfl, rfl, rfl⟩

end Spec

end ParforOffload
