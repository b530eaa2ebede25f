/-
**The example `sum_reduction.py`: a kernel that halves an array, and the loop that launches it.**

`sum_reduction_kernel(A, R, stride)` adds, in work-item `i`, the elements `A[i]` and
`A[i + stride]`, stores the sum in `R[i]`, and writes it back to `A[i]`.  `sum_reduce(A)` launches
it with `stride = global_size = total // 2` while `total > 1`, halving `total` each time, and
returns `R[0]`, where `R` is an array of `ceil(len(A) / 2)` random numbers.

The work-items of a launch run their loads and stores in any interleaving.  They touch disjoint
elements, except that work-item `i` reads `A[i + stride]`, which no work-item writes, so every
interleaving ends as running the work-items one after another does.  The host loop is then a
reduction tree: for an array of `2 ^ (k + 1)` elements it returns their sum.  Its docstring asks
for a power of two; for one element (`2 ^ 0`) the loop never runs and `R[0]` is returned as it
was drawn, and for an odd size the last element is never read.

Main definitions:

* `ParforOffload.sumReductionKernel`, `ParforOffload.launch` — one work-item, and a launch run one
  work-item after another;
* `ParforOffload.LaunchState.step`, `ParforOffload.LaunchState.Reach` — the loads and stores of a
  launch, in any interleaving;
* `ParforOffload.sumReduce`, `ParforOffload.LoopRun` — the host function, and its loop with the
  work-items of each launch interleaved.

Main results:

* `ParforOffload.launch_interleaved` — **the kernel has no race**: a run can always go on until
  every work-item is done, and every interleaving in which no work-item can move leaves the
  arrays as `launch` does;
* `ParforOffload.sumReduce_pow2` — for `2 ^ (k + 1)` elements of a commutative monoid,
  `sum_reduce` returns their sum, and for one element the random `R[0]`;
* `ParforOffload.loopRun_eq_sumReduceLoop` — the host loop ends the same way under every schedule
  of the work-items of its launches;
* `ParforOffload.sumReduce_congr` — `sum_reduce` reads only the first `total // 2 * 2` elements,
  so for an odd size the last element does not matter.
-/

import Mathlib.Algebra.Order.BigOperators.Group.List
import Mathlib.Algebra.Order.Ring.Nat
import Mathlib.Logic.Function.Basic

set_option autoImplicit false

namespace ParforOffload

variable {V : Type}

/-! ### The kernel and a launch -/

/-- The arrays `A` and `R` of `sum_reduce`, by index. -/
@[ext]
structure SumMem (V : Type) where
  A : Nat → V
  R : Nat → V

/-- `sum_reduction_kernel(A, R, stride)` run by the work-item `i = dppy.get_global_id(0)`:
`R[i] = A[i] + A[i + stride]`, then `A[i] = R[i]`. -/
def sumReductionKernel [Add V] (stride i : Nat) (m : SumMem V) : SumMem V :=
  let R := Function.update m.R i (m.A i + m.A (i + stride))
  { A := Function.update m.A i (R i), R := R }

/-- `sum_reduction_kernel[global_size, dppy.DEFAULT_LOCAL_SIZE](A, R, global_size)`, with the
work-items `0, …, global_size - 1` run one after another. -/
def launch [Add V] (globalSize : Nat) (m : SumMem V) : SumMem V :=
  (List.range globalSize).foldl (fun m i => sumReductionKernel globalSize i m) m

/-- The arrays after the first `k` work-items of a launch with stride `g`. -/
theorem foldl_sumReductionKernel [Add V] (g : Nat) (m : SumMem V) :
    ∀ k, (List.range k).foldl (fun m i => sumReductionKernel g i m) m =
      ⟨fun j => if j < k then m.A j + m.A (j + g) else m.A j,
        fun j => if j < k then m.A j + m.A (j + g) else m.R j⟩
  | 0 => by simp
  | k + 1 => by
    rw [List.range_succ, List.foldl_append, foldl_sumReductionKernel g m k]
    simp only [List.foldl_cons, List.foldl_nil, sumReductionKernel, lt_irrefl, if_false,
      show ¬k + g < k by omega, Function.update_same, SumMem.mk.injEq]
    constructor <;> funext j <;> rcases eq_or_ne j k with rfl | hjk <;>
      simp [Function.update_noteq, Nat.lt_succ_iff_lt_or_eq, *]

/-- **What a launch does**: `A[j]` and `R[j]` become `A[j] + A[j + g]` below `g`, and the rest
is left as it was. -/
theorem launch_eq [Add V] (g : Nat) (m : SumMem V) :
    launch g m = ⟨fun j => if j < g then m.A j + m.A (j + g) else m.A j,
      fun j => if j < g then m.A j + m.A (j + g) else m.R j⟩ :=
  foldl_sumReductionKernel g m g

/-! ### A launch, in any interleaving -/

/-- How far a work-item has got in `sum_reduction_kernel`, as the loads and stores of single
elements it makes, with the values it holds. -/
inductive ItemPc (V : Type) where
  /-- Nothing done yet. -/
  | start
  /-- `A[i]` read. -/
  | loadedA (x : V)
  /-- `A[i + stride]` read. -/
  | loadedB (x y : V)
  /-- `R[i] = x + y` written. -/
  | storedR
  /-- `R[i]` read back. -/
  | loadedR (z : V)
  /-- `A[i] = R[i]` written. -/
  | done

/-- The loads and stores a work-item has still to make. -/
def ItemPc.remaining : ItemPc V → Nat
  | .start => 5
  | .loadedA _ => 4
  | .loadedB .. => 3
  | .storedR => 2
  | .loadedR _ => 1
  | .done => 0

/-- A launch in progress: the arrays, and where each work-item is. -/
structure LaunchState (V : Type) where
  mem : SumMem V
  pc : Nat → ItemPc V

section Run

variable [Add V]

/-- Work-item `i` of a launch with stride `stride` makes its next load or store. -/
def LaunchState.step (stride : Nat) (s : LaunchState V) (i : Nat) : Option (LaunchState V) :=
  match s.pc i with
  | .start => some { s with pc := Function.update s.pc i (.loadedA (s.mem.A i)) }
  | .loadedA x => some { s with pc := Function.update s.pc i (.loadedB x (s.mem.A (i + stride))) }
  | .loadedB x y =>
    some ⟨{ s.mem with R := Function.update s.mem.R i (x + y) }, Function.update s.pc i .storedR⟩
  | .storedR => some { s with pc := Function.update s.pc i (.loadedR (s.mem.R i)) }
  | .loadedR z =>
    some ⟨{ s.mem with A := Function.update s.mem.A i z }, Function.update s.pc i .done⟩
  | .done => none

/-- The states a launch of `globalSize` work-items, with stride `globalSize`, reaches when they
make their loads and stores in some interleaving. -/
inductive LaunchState.Reach (globalSize : Nat) : LaunchState V → LaunchState V → Prop
  | refl (s : LaunchState V) : LaunchState.Reach globalSize s s
  | step {s s' s'' : LaunchState V} (i : Nat) : i < globalSize →
      s.step globalSize i = some s' → LaunchState.Reach globalSize s' s'' →
      LaunchState.Reach globalSize s s''

/-- A step of work-item `i` changes only its own place, `A[i]` and `R[i]`. -/
theorem LaunchState.step_frame {stride i j : Nat} {s s' : LaunchState V}
    (h : s.step stride i = some s') (hj : j ≠ i) :
    s'.pc j = s.pc j ∧ s'.mem.A j = s.mem.A j ∧ s'.mem.R j = s.mem.R j := by
  unfold LaunchState.step at h
  split at h <;> cases h <;> simp [Function.update_noteq hj]

/-- A step moves its work-item one place on. -/
theorem LaunchState.remaining_step_pc {stride i : Nat} {s s' : LaunchState V}
    (h : s.step stride i = some s') : (s'.pc i).remaining + 1 = (s.pc i).remaining := by
  unfold LaunchState.step at h
  split at h <;> cases h <;> simp_all [ItemPc.remaining]

theorem LaunchState.step_isSome (stride : Nat) {i : Nat} {s : LaunchState V} (h : s.pc i ≠ .done) :
    (s.step stride i).isSome := by
  unfold LaunchState.step
  split <;> simp_all

/-- The loads and stores the work-items below `g` have still to make, in all. -/
def LaunchState.remaining (g : Nat) (s : LaunchState V) : Nat :=
  ((List.range g).map fun i => (s.pc i).remaining).sum

theorem sum_range_map_pred {f f' : Nat → Nat} {i : Nat} (hf : f' i + 1 = f i)
    (hj : ∀ j, j ≠ i → f' j = f j) :
    ∀ g, i < g → ((List.range g).map f').sum + 1 = ((List.range g).map f).sum
  | 0, h => absurd h (Nat.not_lt_zero i)
  | g + 1, h => by
    simp only [List.range_succ, List.map_append, List.sum_append, List.map_singleton,
      List.sum_singleton]
    rcases Nat.lt_succ_iff_lt_or_eq.1 h with h | rfl
    · rw [hj g (by omega), ← sum_range_map_pred hf hj g h]
      omega
    · rw [List.map_congr_left fun j hj' => hj j (by simp at hj'; omega), ← hf]
      omega

theorem LaunchState.remaining_step {g i : Nat} {s s' : LaunchState V} (hi : i < g)
    (h : s.step g i = some s') : s'.remaining g + 1 = s.remaining g :=
  sum_range_map_pred (LaunchState.remaining_step_pc h)
    (fun _ hj => congrArg ItemPc.remaining (LaunchState.step_frame h hj).1) g hi

/-- **A launch can always finish**: from any state, running the work-items below `g` one step at a
time reaches a state where all of them are done. -/
theorem LaunchState.exists_done (g : Nat) (s : LaunchState V) :
    ∃ s', LaunchState.Reach g s s' ∧ ∀ i < g, s'.pc i = .done := by
  generalize hn : s.remaining g = n
  induction n generalizing s with
  | zero =>
    refine ⟨s, .refl s, fun i hi => ?_⟩
    unfold LaunchState.remaining at hn
    have := List.sum_eq_zero_iff.1 hn _ (List.mem_map_of_mem _ (List.mem_range.2 hi))
    cases hpc : s.pc i <;> simp_all [ItemPc.remaining]
  | succ n ih =>
    by_cases hd : ∀ i < g, s.pc i = .done
    · exact ⟨s, .refl s, hd⟩
    push_neg at hd
    obtain ⟨i, hi, hne⟩ := hd
    obtain ⟨s', hs'⟩ := Option.isSome_iff_exists.1 (LaunchState.step_isSome g hne)
    obtain ⟨s'', hr, hdone⟩ := ih s' (by have := LaunchState.remaining_step hi hs'; omega)
    exact ⟨s'', .step i hi hs' hr, hdone⟩

/-! ### No race -/

/-- What work-item `j` of a launch from the arrays `m` has in `A[j]` and `R[j]`, and in its
registers, at each place of the kernel: `a = A[j]`, `b = A[j + stride]` and `r = R[j]` as the
launch found them. -/
def ItemPc.Inv (a b r : V) : ItemPc V → V → V → Prop
  | .start, A, R => A = a ∧ R = r
  | .loadedA x, A, R => x = a ∧ A = a ∧ R = r
  | .loadedB x y, A, R => x = a ∧ y = b ∧ A = a ∧ R = r
  | .storedR, A, R => A = a ∧ R = a + b
  | .loadedR z, A, R => z = a + b ∧ A = a ∧ R = a + b
  | .done, A, R => A = a + b ∧ R = a + b

/-- A step of work-item `i` keeps its own invariant, when `A[i + stride]` still holds `b`. -/
theorem ItemPc.Inv.step {stride i : Nat} {a b r : V} {s s' : LaunchState V}
    (h : s.step stride i = some s') (hinv : (s.pc i).Inv a b r (s.mem.A i) (s.mem.R i))
    (hb : s.mem.A (i + stride) = b) : (s'.pc i).Inv a b r (s'.mem.A i) (s'.mem.R i) := by
  unfold LaunchState.step at h
  split at h <;> cases h <;> rename_i hpc <;> rw [hpc] at hinv <;>
    simp_all [ItemPc.Inv]

/-- **The invariant of a launch of `g` work-items from the arrays `m`**: each work-item's
elements and registers are as `ItemPc.Inv` says, and no work-item from `g` on has started. -/
structure LaunchState.Inv (g : Nat) (m : SumMem V) (s : LaunchState V) : Prop where
  item : ∀ j, (s.pc j).Inv (m.A j) (m.A (j + g)) (m.R j) (s.mem.A j) (s.mem.R j)
  idle : ∀ j, g ≤ j → s.pc j = .start

theorem LaunchState.Inv.init (g : Nat) (m : SumMem V) : LaunchState.Inv g m ⟨m, fun _ => .start⟩ :=
  ⟨fun _ => ⟨rfl, rfl⟩, fun _ _ => rfl⟩

/-- **One step keeps the invariant**: work-item `i` reads `A[i + g]`, which no work-item writes,
and writes only `A[i]` and `R[i]`. -/
theorem LaunchState.Inv.step {g i : Nat} {m : SumMem V} {s s' : LaunchState V}
    (hs : s.Inv g m) (hi : i < g) (h : s.step g i = some s') : s'.Inv g m := by
  have hb := hs.item (i + g)
  rw [hs.idle _ (by omega)] at hb
  refine ⟨fun j => ?_, fun j hj => ?_⟩
  · by_cases hji : j = i
    · subst hji
      exact (hs.item j).step h hb.1
    · obtain ⟨hpc, hA, hR⟩ := LaunchState.step_frame h hji
      rw [hpc, hA, hR]
      exact hs.item j
  · rw [(LaunchState.step_frame h (by omega)).1]
    exact hs.idle j hj

theorem LaunchState.Inv.reach {g : Nat} {m : SumMem V} {s s' : LaunchState V}
    (hr : LaunchState.Reach g s s') (hs : s.Inv g m) : s'.Inv g m := by
  induction hr with
  | refl => exact hs
  | step i hi hstep _ ih => exact ih (hs.step hi hstep)

/-- Every interleaving of a launch that ends where no work-item can move leaves the arrays as
`launch` does. -/
theorem LaunchState.mem_eq_launch {g : Nat} {m : SumMem V} {s : LaunchState V}
    (hr : LaunchState.Reach g ⟨m, fun _ => .start⟩ s) (hstuck : ∀ i < g, s.step g i = none) :
    s.mem = launch g m := by
  have hinv := (LaunchState.Inv.init g m).reach hr
  have hdone : ∀ j < g, s.pc j = .done := fun j hj => by
    by_contra hne
    simpa [hstuck j hj] using LaunchState.step_isSome g hne
  have hitem : ∀ j, s.mem.A j = (launch g m).A j ∧ s.mem.R j = (launch g m).R j := fun j => by
    have := hinv.item j
    rw [launch_eq]
    by_cases hj : j < g
    · rw [hdone j hj] at this
      simpa [hj] using this
    · rw [hinv.idle j (by omega)] at this
      simpa [hj] using this
  ext j
  exacts [(hitem j).1, (hitem j).2]

/-- **The kernel has no race.**  A launch of `g` work-items on the arrays `m` can always run until
every work-item is done, and in every interleaving of their loads and stores, a state where no
work-item can move leaves the arrays as running the work-items one after another does. -/
theorem launch_interleaved (g : Nat) (m : SumMem V) :
    (∃ s, LaunchState.Reach g ⟨m, fun _ => .start⟩ s ∧ ∀ i < g, s.pc i = .done) ∧
      ∀ s, LaunchState.Reach g ⟨m, fun _ => .start⟩ s → (∀ i < g, s.step g i = none) →
        s.mem = launch g m :=
  ⟨LaunchState.exists_done g _, fun _ => LaunchState.mem_eq_launch⟩

end Run

/-! ### The host loop -/

section Host

variable [Add V]

/-- The `while total > 1` loop of `sum_reduce`: launch `total // 2` work-items with stride
`total // 2`, then halve `total`. -/
def sumReduceLoop (total : Nat) (m : SumMem V) : SumMem V :=
  if h : 1 < total then sumReduceLoop (total / 2) (launch (total / 2) m) else m
termination_by total
decreasing_by omega

/-- `sum_reduce(A)` for an array `A` of `total = len(A)` elements, where `random` gives the
elements `np.random.random` draws for the `math.ceil(total / 2)` elements of `R`.  It returns
`R[0]`, and `none` for the `IndexError` when `R` is empty. -/
def sumReduce (total : Nat) (A random : Nat → V) : Option V :=
  if 0 < (total + 1) / 2 then some ((sumReduceLoop total ⟨A, random⟩).R 0) else none

theorem sumReduceLoop_of_lt {total : Nat} (h : 1 < total) (m : SumMem V) :
    sumReduceLoop total m = sumReduceLoop (total / 2) (launch (total / 2) m) := by
  rw [sumReduceLoop, dif_pos h]

theorem sumReduceLoop_of_le {total : Nat} (h : total ≤ 1) (m : SumMem V) :
    sumReduceLoop total m = m := by
  rw [sumReduceLoop, dif_neg (by omega)]

/-- The loop reads only the first `total / 2 * 2` elements of `A`: for an odd `total` the last
one is left out of every launch. -/
theorem sumReduceLoop_congr (total : Nat) (m m' : SumMem V)
    (hA : ∀ j < total / 2 * 2, m.A j = m'.A j) (hR : m.R = m'.R) :
    (sumReduceLoop total m).R = (sumReduceLoop total m').R := by
  induction total using Nat.strong_induction_on generalizing m m' with
  | _ total ih =>
    by_cases h : 1 < total
    · rw [sumReduceLoop_of_lt h, sumReduceLoop_of_lt h]
      refine ih _ (by omega) _ _ (fun j hj => ?_) ?_
      · simp only [launch_eq]
        split_ifs <;> rw [hA j (by omega)]
        rw [hA (j + total / 2) (by omega)]
      · funext j
        simp only [launch_eq]
        split_ifs
        · rw [hA j (by omega), hA (j + total / 2) (by omega)]
        · exact congrFun hR j
    · rw [sumReduceLoop_of_le (by omega), sumReduceLoop_of_le (by omega), hR]

/-- **`sum_reduce` reads only the first `total / 2 * 2` elements of `A`**: for an odd size the
last element does not count. -/
theorem sumReduce_congr {total : Nat} {A A' : Nat → V} (random : Nat → V)
    (h : ∀ j < total / 2 * 2, A j = A' j) : sumReduce total A random = sumReduce total A' random := by
  unfold sumReduce
  rw [sumReduceLoop_congr total ⟨A, random⟩ ⟨A', random⟩ h rfl]

/-- For three elements, the third is never read. -/
theorem sumReduce_congr_three :
    (∀ j < 3 / 2 * 2, (fun j : Nat => j) j = Function.update (fun j : Nat => j) 2 100 j) ∧
      sumReduce 3 (fun j : Nat => j) (fun _ => 0) =
        sumReduce 3 (Function.update (fun j : Nat => j) 2 100) (fun _ => 0) :=
  ⟨by decide, sumReduce_congr _ (by decide)⟩

/-- The host loop with the work-items of each launch interleaved in any way: each launch runs
until no work-item can move, and the loop goes on from the arrays it leaves. -/
inductive LoopRun : Nat → SumMem V → SumMem V → Prop
  | stop {total : Nat} {m : SumMem V} : total ≤ 1 → LoopRun total m m
  | launch {total : Nat} {m m' : SumMem V} (s : LaunchState V) : 1 < total →
      LaunchState.Reach (total / 2) ⟨m, fun _ => .start⟩ s →
      (∀ i < total / 2, s.step (total / 2) i = none) → LoopRun (total / 2) s.mem m' →
      LoopRun total m m'

theorem LaunchState.step_of_done {stride i : Nat} {s : LaunchState V} (h : s.pc i = .done) :
    s.step stride i = none := by
  unfold LaunchState.step
  rw [h]

/-- **The host loop has no race either**: it always runs to its end, and however the work-items of
each launch interleave, it ends with the arrays `sumReduceLoop` gives. -/
theorem loopRun_eq_sumReduceLoop (total : Nat) (m : SumMem V) :
    (∃ m', LoopRun total m m') ∧ ∀ m', LoopRun total m m' → m' = sumReduceLoop total m := by
  constructor
  · induction total using Nat.strong_induction_on generalizing m with
    | _ total ih =>
      by_cases h : 1 < total
      · obtain ⟨s, hr, hdone⟩ := LaunchState.exists_done (total / 2) ⟨m, fun _ => .start⟩
        obtain ⟨m', hm'⟩ := ih (total / 2) (by omega) s.mem
        exact ⟨m', .launch s h hr (fun i hi => LaunchState.step_of_done (hdone i hi)) hm'⟩
      · exact ⟨m, .stop (by omega)⟩
  · intro m' hrun
    induction hrun with
    | stop h => rw [sumReduceLoop_of_le h]
    | launch s h hr hstuck _ ih =>
      rw [ih, sumReduceLoop_of_lt h, LaunchState.mem_eq_launch hr hstuck]

end Host

/-- A launch of `g` work-items leaves in the first `g` elements of `A` the sum of its first
`2 * g`. -/
theorem sum_launch [AddCommMonoid V] (g : Nat) (m : SumMem V) :
    ((List.range g).map (launch g m).A).sum = ((List.range (2 * g)).map m.A).sum := by
  have h : ∀ j ∈ List.range g, (launch g m).A j = m.A j + m.A (g + j) := fun j hj => by
    rw [launch_eq, Nat.add_comm g j]
    exact if_pos (List.mem_range.1 hj)
  rw [List.map_congr_left h, List.sum_map_add, two_mul, List.range_add, List.map_append,
    List.sum_append, List.map_map]
  rfl

/-- **`sum_reduce` on a power of two.**  For `2 ^ (k + 1)` elements of a commutative monoid it
returns their sum; for one element (`2 ^ 0`) the loop never runs and it returns the random
`R[0]`. -/
theorem sumReduce_pow2 [AddCommMonoid V] (k : Nat) (A random : Nat → V) :
    sumReduce (2 ^ k) A random =
      some (if k = 0 then random 0 else ((List.range (2 ^ k)).map A).sum) := by
  have hloop : ∀ k (m : SumMem V),
      (sumReduceLoop (2 ^ (k + 1)) m).R 0 = ((List.range (2 ^ (k + 1))).map m.A).sum := by
    intro k
    induction k with
    | zero => intro m; simp [sumReduceLoop_of_lt, sumReduceLoop_of_le, launch_eq, List.range_succ]
    | succ k ih =>
      intro m
      rw [sumReduceLoop_of_lt (Nat.one_lt_two_pow (by omega)), Nat.pow_succ, Nat.mul_div_cancel _ two_pos,
        ih, sum_launch, Nat.mul_comm]
  unfold sumReduce
  rw [if_pos (by have : 1 ≤ 2 ^ k := Nat.one_le_two_pow; omega)]
  cases k with
  | zero => simp [sumReduceLoop_of_le]
  | succ k => simp [hloop]

end ParforOffload
