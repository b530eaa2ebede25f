/-
**Copying the descriptor and the IR: `relatively_deep_copy`.**

`DPPYLower.__init__` copies the function descriptor and then the function IR with
`relatively_deep_copy`, sharing one `memo` dict between the two calls, so that the CPU lowerer of
the fallback works on objects the device attempt cannot have touched.  `relatively_deep_copy`
returns the objects of a list of excluded types (numba types, functions, dispatchers, signatures,
modules, `str`, `bool`, `None`, …) as they are; it copies lists, dicts, tuples and sets item by
item; it rebuilds function descriptors, function IRs, `ir.Global` and `ir.FreeVar` through their
constructors, copying some of the arguments and passing the others on (the descriptor's
`global_dict`, the IR's `loc`, a global's `value`, …); and it copies any other object with
`copy.copy` and then each of its attributes.  A container or a rebuilt object is entered in the
memo once its items are copied; a generic object is entered before its attributes are copied.

The heap is a list of objects; an object's address, a natural number, is its `id`.  The copy only reads the originals and
appends the objects it creates after them.  The recursion depth is the fuel: running out of it is
Python's `RecursionError`.

Main definitions:

* `ParforOffload.relativelyDeepCopy` — `relatively_deep_copy`;
* `ParforOffload.dppyLowerInit` — the two copies of `DPPYLower.__init__`;
* `ParforOffload.MemoCopy` — the memo pairs each original it holds with a new object that is the
  original with its copied references replaced by their copies;
* `ParforOffload.CyclesCut` — every cycle through a container or a rebuilt object passes through an
  attribute object that lies on every path from the roots to it.

Main results:

* `ParforOffload.dppyLowerInit_copies` — **the copy is a copy**: on every heap whose cycles are
  cut so, with a recursion depth above the number of objects, the two copies return, and the memo
  they leave is a bijection between the originals they reach and the objects they create, the
  identity exactly on the excluded leaves, that preserves each object's kind, contents and copied
  references;
* `ParforOffload.dppyLowerInit_shares_global_dict` — the copied descriptor refers to the original's
  `global_dict`, a dict;
* `ParforOffload.relativelyDeepCopy_self_list` — a list that holds itself is copied without end.
-/

import Mathlib.Data.List.Basic
import Mathlib.Data.List.GetD

set_option autoImplicit false

namespace ParforOffload

/-! ### Objects on the heap -/

/-- The built-in containers copied item by item. -/
inductive SeqKind where
  | list
  | tuple
  | set
  deriving DecidableEq, Repr

/-- The classes `relatively_deep_copy` rebuilds through their constructors. -/
inductive RecordCls where
  | functionDescriptor
  | functionIR
  | global
  | freeVar
  deriving DecidableEq, Repr

/-- The constructor arguments of a rebuilt class that are copied; the others are passed on as the
original holds them (`global_dict=obj.global_dict`, `loc=obj.loc`, `value=obj.value`, …). -/
def copiedFields : RecordCls → List String
  | .functionDescriptor => ["typemap", "calltypes", "argtypes"]
  | .functionIR => ["blocks", "is_generator", "func_id", "_definitions", "arg_names"]
  | .global | .freeVar => []

/-- An object, with the references it holds. -/
inductive Obj where
  /-- An object of an excluded type, or an atom (`int`, `float`) that `copy.copy` returns as it
  is. -/
  | leaf
  /-- A list, tuple or set, with its items in iteration order. -/
  | seq (k : SeqKind) (items : List Nat)
  /-- A dict, with its (key, value) pairs in iteration order. -/
  | dict (entries : List (Nat × Nat))
  /-- A function descriptor, function IR, `ir.Global` or `ir.FreeVar`, with the values of its
  constructor's arguments in the order of the call, and the descriptor's `mangled_name`. -/
  | record (cls : RecordCls) (fields : List (String × Nat))
  /-- Any other object, with the attributes of its `__dict__` or `__slots__`. -/
  | object (attrs : List (String × Nat))
  deriving DecidableEq, Repr

namespace Obj

/-- A generic object: entered in the memo before its attributes are copied. -/
def isObject : Obj → Bool
  | .object _ => true
  | _ => false

/-- The references `relatively_deep_copy` follows from an object, in the order it copies them. -/
def children : Obj → List Nat
  | .leaf => []
  | .seq _ items => items
  | .dict entries => entries.flatMap fun e => [e.2, e.1]
  | .record cls fields => (fields.filter fun f => f.1 ∈ copiedFields cls).map Prod.snd
  | .object attrs => attrs.map Prod.snd

/-- The object whose copied references are replaced through `φ`. -/
def map (φ : Nat → Nat) : Obj → Obj
  | .leaf => .leaf
  | .seq k items => .seq k (items.map φ)
  | .dict entries => .dict (entries.map fun e => (φ e.1, φ e.2))
  | .record cls fields =>
    .record cls (fields.map fun f => (f.1, if f.1 ∈ copiedFields cls then φ f.2 else f.2))
  | .object attrs => .object (attrs.map fun f => (f.1, φ f.2))

/-- Only the copied references matter to `map`. -/
theorem map_congr {φ ψ : Nat → Nat} (o : Obj) (h : ∀ b ∈ o.children, φ b = ψ b) :
    o.map φ = o.map ψ := by
  cases o with
  | leaf => rfl
  | seq k items => exact congrArg _ (List.map_congr_left h)
  | dict entries =>
    refine congrArg _ (List.map_congr_left fun e he => ?_)
    rw [h e.1 (List.mem_flatMap.2 ⟨e, he, by simp⟩), h e.2 (List.mem_flatMap.2 ⟨e, he, by simp⟩)]
  | record cls fields =>
    refine congrArg _ (List.map_congr_left fun f hf => ?_)
    split_ifs with hk
    · exact congrArg _ (h _ (List.mem_map_of_mem _ (List.mem_filter.2 ⟨hf, by simpa using hk⟩)))
    · rfl
  | object attrs =>
    exact congrArg _ (List.map_congr_left fun f hf => congrArg _ (h _ (List.mem_map_of_mem _ hf)))

end Obj

/-- The heap: the object at each address. -/
abbrev Heap := List Obj

/-- The object at address `a`; past the end there is none to copy. -/
def Heap.read (h : Heap) (a : Nat) : Obj := h.getD a .leaf

/-- Every reference the copy follows is an address of the heap. -/
def Heap.Closed (h : Heap) : Prop := ∀ a < h.length, ∀ b ∈ (h.read a).children, b < h.length

instance (h : Heap) : Decidable h.Closed :=
  inferInstanceAs (Decidable (∀ a < h.length, ∀ b ∈ (h.read a).children, b < h.length))

theorem Heap.read_of_le {h : Heap} {a : Nat} (ha : h.length ≤ a) : h.read a = .leaf :=
  List.getD_eq_default _ _ ha

/-- What holds of every reference of the objects on a heap holds of every reference: past its end
there are none. -/
theorem Heap.forall_children {h : Heap} {P : Nat → Nat → Prop}
    (hP : ∀ x < h.length, ∀ y ∈ (h.read x).children, P x y) :
    ∀ x, ∀ y ∈ (h.read x).children, P x y := fun x y hy => by
  by_cases hx : x < h.length
  · exact hP x hx y hy
  · simp [Heap.read_of_le (Nat.le_of_not_lt hx), Obj.children] at hy

theorem Heap.Closed.lt {h : Heap} (hh : h.Closed) {a b : Nat} (hb : b ∈ (h.read a).children) :
    b < h.length := by
  by_cases ha : a < h.length
  · exact hh a ha b hb
  · simp [Heap.read_of_le (Nat.le_of_not_lt ha), Obj.children] at hb

/-! ### `relatively_deep_copy` -/

/-- The state of a copy: the objects created so far and the `memo` dict. -/
structure CopyState where
  /-- The objects created, in order: the `i`-th is at address `h.length + i`. -/
  new : List Obj
  /-- `memo`: the copy entered for an original. -/
  memo : Nat → Option Nat

/-- The memo of `DPPYLower.__init__`, before the first copy. -/
def CopyState.init : CopyState := ⟨[], fun _ => none⟩

/-- A computation of the copy; `none` is an exception (`RecursionError`). -/
abbrev CopyM := StateT CopyState Option

namespace CopyState

/-- The state once `o` is created as the copy of `a` and entered in the memo. -/
def enter (s : CopyState) (h : Heap) (a : Nat) (o : Obj) : CopyState :=
  { new := s.new ++ [o], memo := Function.update s.memo a (some (h.length + s.new.length)) }

/-- The state once the created object at `c` is `o`. -/
def setNew (s : CopyState) (h : Heap) (c : Nat) (o : Obj) : CopyState :=
  { s with new := s.new.set (c - h.length) o }

end CopyState

/-- Create `o` as the copy of `a` and enter it in the memo (`memo[obj_id] = cpy`). -/
def memoNew (h : Heap) (a : Nat) (o : Obj) : CopyM Nat := fun s =>
  some (h.length + s.new.length, s.enter h a o)

/-- Set the attributes of the created object at `c` (`setattr(cpy, key, attr_cpy)`). -/
def setAttrs (h : Heap) (c : Nat) (o : Obj) : CopyM Unit := fun s =>
  some ((), s.setNew h c o)

@[simp] theorem memoNew_run (h : Heap) (a : Nat) (o : Obj) (s : CopyState) :
    (memoNew h a o).run s = some (h.length + s.new.length, s.enter h a o) := rfl

@[simp] theorem setAttrs_run (h : Heap) (c : Nat) (o : Obj) (s : CopyState) :
    (setAttrs h c o).run s = some ((), s.setNew h c o) := rfl

/-- The copied references of an object copied by `copy`, in the order of the source: the items of a
list, tuple or set; the value and then the key of each dict entry (`cpy[copy(key)] = copy(item)`
evaluates its right side first); the copied constructor arguments of a rebuilt object; the
attributes of any other object. -/
def copyRefs (copy : Nat → CopyM Nat) : Obj → CopyM Obj
  | .leaf => pure .leaf
  | .seq k items => .seq k <$> items.mapM copy
  | .dict entries => .dict <$> entries.mapM fun e => do
    let v ← copy e.2
    let k ← copy e.1
    pure (k, v)
  | .record cls fields => .record cls <$> fields.mapM fun f =>
    if f.1 ∈ copiedFields cls then (f.1, ·) <$> copy f.2 else pure f
  | .object attrs => .object <$> attrs.mapM fun f => (f.1, ·) <$> copy f.2

/-- `relatively_deep_copy(obj, memo)`, with the recursion depth left as fuel.  A generic object is
copied by `copy.copy`, entered in the memo, and has its attributes set one by one; nothing reads
the copy's attributes meanwhile, so they are set together here.  The copy of a list, dict or set is
created empty before its items are copied (`copy.copy(obj)`, `cpy.clear()`) and filled as they are;
nothing refers to it before it is complete and in the memo, so it is created complete here. -/
def relativelyDeepCopy (h : Heap) : Nat → Nat → CopyM Nat
  | 0, _ => failure
  | fuel + 1, a => do
    match (← get).memo a, h.read a with
    | some c, _ => pure c
    | none, .leaf => pure a
    | none, .object attrs => do
      let c ← memoNew h a (.object attrs)
      setAttrs h c (← copyRefs (relativelyDeepCopy h fuel) (.object attrs))
      pure c
    | none, o => do memoNew h a (← copyRefs (relativelyDeepCopy h fuel) o)

/-- `DPPYLower.__init__`: the copies `fndesc_cpu` and `func_ir_cpu`, made with one memo. -/
def dppyLowerInit (h : Heap) (fuel : Nat) (fndesc funcIr : Nat) : CopyM (Nat × Nat) := do
  let fndescCpu ← relativelyDeepCopy h fuel fndesc
  let funcIrCpu ← relativelyDeepCopy h fuel funcIr
  pure (fndescCpu, funcIrCpu)

section Equations
variable {h : Heap} {fuel : Nat} {a c : Nat} {s : CopyState}

theorem relativelyDeepCopy_memo (hm : s.memo a = some c) :
    (relativelyDeepCopy h (fuel + 1) a).run s = some (c, s) := by
  simp [relativelyDeepCopy, hm]

theorem relativelyDeepCopy_leaf (hm : s.memo a = none) (hl : h.read a = .leaf) :
    (relativelyDeepCopy h (fuel + 1) a).run s = some (a, s) := by
  simp [relativelyDeepCopy, hm, hl]

theorem relativelyDeepCopy_object {attrs : List (String × Nat)} (hm : s.memo a = none)
    (hl : h.read a = .object attrs) :
    (relativelyDeepCopy h (fuel + 1) a).run s = (do
      let c ← memoNew h a (.object attrs)
      setAttrs h c (← copyRefs (relativelyDeepCopy h fuel) (.object attrs))
      pure c).run s := by
  simp [relativelyDeepCopy, hm, hl]

theorem relativelyDeepCopy_late (hm : s.memo a = none) (hl : h.read a ≠ .leaf)
    (ho : (h.read a).isObject = false) :
    (relativelyDeepCopy h (fuel + 1) a).run s =
      (do memoNew h a (← copyRefs (relativelyDeepCopy h fuel) (h.read a))).run s := by
  simp only [relativelyDeepCopy, StateT.run_bind, StateT.run_get, pure_bind, hm]
  cases hr : h.read a <;> simp_all [Obj.isObject]

end Equations

/-! ### Paths between objects -/

/-- A path of copied references from `a` to `b` through objects none of which, `a` and `b`
included, is in `S`. -/
inductive ReachAvoiding (h : Heap) (S : Nat → Prop) : Nat → Nat → Prop
  | refl {a : Nat} : ¬ S a → ReachAvoiding h S a a
  | step {a b c : Nat} : ¬ S a → b ∈ (h.read a).children → ReachAvoiding h S b c →
      ReachAvoiding h S a c

namespace ReachAvoiding

variable {h : Heap} {S T : Nat → Prop} {a b c : Nat}

/-- Avoiding more objects leaves fewer paths. -/
theorem mono (hST : ∀ x, T x → S x) (r : ReachAvoiding h S a b) : ReachAvoiding h T a b := by
  induction r with
  | refl ha => exact refl fun hx => ha (hST _ hx)
  | step ha hb _ ih => exact step (fun hx => ha (hST _ hx)) hb ih

theorem snoc (r : ReachAvoiding h S a b) (hc : c ∈ (h.read b).children) (hS : ¬ S c) :
    ReachAvoiding h S a c := by
  induction r with
  | refl hb => exact step hb hc (refl hS)
  | step ha hb _ ih => exact step ha hb (ih hc)

/-- A path's first object is not avoided. -/
theorem start (r : ReachAvoiding h S a b) : ¬ S a := by
  cases r <;> assumption

/-- A path that starts in a set closed under the references it may take stays in it. -/
theorem mem_of_closed {Z : Nat → Prop}
    (hZ : ∀ x, ∀ y ∈ (h.read x).children, Z x → ¬ S y → Z y) (r : ReachAvoiding h S a b)
    (ha : Z a) : Z b := by
  induction r with
  | refl _ => exact ha
  | step _ hb r ih => exact ih (hZ _ _ hb ha r.start)

end ReachAvoiding

/-- `a` is reachable from one of the roots. -/
def Reachable (h : Heap) (roots : List Nat) (a : Nat) : Prop :=
  ∃ r ∈ roots, ReachAvoiding h (fun _ => False) r a

/-- `e` lies on every path from the roots to `a`. -/
def Dominates (h : Heap) (roots : List Nat) (e a : Nat) : Prop :=
  ∀ r ∈ roots, ¬ ReachAvoiding h (· = e) r a

/-- Every cycle through a container or a rebuilt object that the copy reaches passes through a
generic object that lies on every path from the roots to it. -/
def CyclesCut (h : Heap) (roots : List Nat) : Prop :=
  ∀ l, (h.read l).isObject = false → Reachable h roots l → ∀ b ∈ (h.read l).children,
    ¬ ReachAvoiding h (fun e => (h.read e).isObject = true ∧ Dominates h roots e l) b l

section Paths

variable {h : Heap} {roots : List Nat} {a b e : Nat}

theorem Reachable.child (hr : Reachable h roots a) (hb : b ∈ (h.read a).children) :
    Reachable h roots b :=
  let ⟨r, hr, p⟩ := hr
  ⟨r, hr, p.snoc hb id⟩

/-- Whatever lies on every path to a child of `a` is `a` or lies on every path to `a`. -/
theorem Dominates.of_child (hd : Dominates h roots e b) (hb : b ∈ (h.read a).children)
    (heb : e ≠ b) : e = a ∨ (e ≠ a ∧ Dominates h roots e a) := by
  by_cases hea : e = a
  · exact .inl hea
  · exact .inr ⟨hea, fun r hr p => hd r hr (p.snoc hb fun h => heb h.symm)⟩

/-- A heap whose references all point to higher addresses, but those to one generic object `c`
that lies on every path from the roots to each object above it with references, has its cycles cut
by `c`. -/
theorem cyclesCut_of_lt_or_cut {c : Nat} (hc : (h.read c).isObject = true)
    (hlt : ∀ x, ∀ y ∈ (h.read x).children, x < y ∨ y = c)
    (hdom : ∀ l, c < l → (h.read l).children ≠ [] → Reachable h roots l → Dominates h roots c l) :
    CyclesCut h roots := by
  intro l hl hr b hb r
  rcases lt_trichotomy l c with hlc | rfl | hcl
  · -- below `c`, every path from a reference of `l` stays above `l`
    have hup : l < l := r.mem_of_closed (Z := (l < ·))
      (fun x y hy hx _ => (hlt x y hy).elim hx.trans fun e => e ▸ hlc)
      ((hlt l b hb).elim id fun e => e ▸ hlc)
    exact absurd hup (lt_irrefl l)
  · simp [hc] at hl
  · -- above `c`, `c` is avoided, and the path goes up
    have hS : (h.read c).isObject = true ∧ Dominates h roots c l :=
      ⟨hc, hdom l hcl (List.ne_nil_of_mem hb) hr⟩
    have hlb : l < b := (hlt l b hb).resolve_right fun e => r.start (e ▸ hS)
    have hbl : b ≤ l := r.mem_of_closed (Z := (b ≤ ·))
      (fun x y hy hx hy' => (hlt x y hy).elim (fun h => hx.trans h.le) fun e => absurd (e ▸ hS) hy')
      le_rfl
    omega

end Paths

/-! ### The memo invariant -/

namespace CopyState

variable {h : Heap} {s s' s'' : CopyState} {a b c : Nat} {o : Obj}

/-- The copy the memo gives for `a`, or `a` itself. -/
def copyOf (s : CopyState) (a : Nat) : Nat := (s.memo a).getD a

/-- `s'` continues `s`: the memo keeps its entries, and objects are only created after those of
`s`. -/
structure Extends (s s' : CopyState) : Prop where
  memo : ∀ a c, s.memo a = some c → s'.memo a = some c
  new : ∃ t, s'.new = s.new ++ t

theorem Extends.refl (s : CopyState) : s.Extends s :=
  ⟨fun _ _ => id, [], (List.append_nil _).symm⟩

theorem Extends.trans (h₁ : s.Extends s') (h₂ : s'.Extends s'') : s.Extends s'' := by
  obtain ⟨t₁, e₁⟩ := h₁.new
  obtain ⟨t₂, e₂⟩ := h₂.new
  exact ⟨fun a c hc => h₂.memo a c (h₁.memo a c hc), t₁ ++ t₂, by rw [e₂, e₁, List.append_assoc]⟩

theorem Extends.ne_none (hext : s.Extends s') (ha : s.memo a ≠ none) : s'.memo a ≠ none := by
  obtain ⟨c, hc⟩ := Option.ne_none_iff_exists'.1 ha
  simp [hext.memo a c hc]

theorem Extends.eq_none (hext : s.Extends s') (ha : s'.memo a = none) : s.memo a = none :=
  by_contra fun hn => hext.ne_none hn ha

@[simp] theorem enter_new : (s.enter h a o).new = s.new ++ [o] := rfl

@[simp] theorem enter_memo_self : (s.enter h a o).memo a = some (h.length + s.new.length) := by
  simp [enter]

theorem enter_memo_of_ne (hb : b ≠ a) : (s.enter h a o).memo b = s.memo b := by
  simp [enter, Function.update_noteq hb]

theorem extends_enter (hm : s.memo a = none) : s.Extends (s.enter h a o) := by
  refine ⟨fun b c hb => ?_, [o], rfl⟩
  rw [enter_memo_of_ne (by rintro rfl; simp [hm] at hb)]
  exact hb

/-- Setting the attributes of an object created since `s` keeps `s` a predecessor. -/
theorem extends_setNew (hext : s.Extends s') (hc : s.new.length ≤ c - h.length) :
    s.Extends (s'.setNew h c o) := by
  obtain ⟨t, ht⟩ := hext.new
  exact ⟨hext.memo, t.set (c - h.length - s.new.length) o,
    by simp only [setNew, ht, List.set_append_right _ _ hc]⟩

end CopyState

/-- `a` needs no copy: it is a leaf, or the memo holds its copy. -/
def Covered (h : Heap) (s : CopyState) (a : Nat) : Prop := h.read a = .leaf ∨ s.memo a ≠ none

theorem Covered.mono {h : Heap} {s s' : CopyState} {a : Nat} (hext : s.Extends s') :
    Covered h s a → Covered h s' a
  | .inl hl => .inl hl
  | .inr hm => .inr (hext.ne_none hm)

/-- Creating the copy of an object the memo lacks changes no copy the memo gives. -/
theorem CopyState.enter_copyOf {h : Heap} {s : CopyState} {a b : Nat} {o : Obj}
    (hb : Covered h s b) (hm : s.memo a = none) (hl : h.read a ≠ .leaf) :
    (s.enter h a o).copyOf b = s.copyOf b := by
  have hba : b ≠ a := by
    rintro rfl
    rcases hb with hb | hb
    · exact hl hb
    · exact hb hm
  simp [copyOf, enter_memo_of_ne hba]

/-- The memo holds a copy of the originals entered in it.  `O` are the generic objects whose
attributes are still being copied. -/
structure MemoCopy (h : Heap) (s : CopyState) (O : List Nat) : Prop where
  /-- Only originals that are not leaves are entered, -/
  key : ∀ a c, s.memo a = some c → a < h.length ∧ h.read a ≠ .leaf
  /-- each with a created object as its copy, -/
  fresh : ∀ a c, s.memo a = some c → h.length ≤ c ∧ c < h.length + s.new.length
  /-- no two with the same copy, -/
  inj : ∀ a b c, s.memo a = some c → s.memo b = some c → a = b
  /-- and every created object is the copy of one of them. -/
  onto : ∀ i < s.new.length, ∃ a, s.memo a = some (h.length + i)
  /-- A copy with its attributes set is its original with its copied references replaced by
  their copies, and these references need no copy. -/
  image : ∀ a c, s.memo a = some c → a ∉ O →
    s.new[c - h.length]? = some ((h.read a).map s.copyOf) ∧
      ∀ b ∈ (h.read a).children, Covered h s b

namespace MemoCopy

variable {h : Heap} {s s' : CopyState} {O : List Nat} {a b c : Nat} {o : Obj}

theorem init : MemoCopy h CopyState.init [] where
  key _ _ h := nomatch h
  fresh _ _ h := nomatch h
  inj _ _ _ h := nomatch h
  onto _ h := absurd h (Nat.not_lt_zero _)
  image _ _ h := nomatch h

/-- A later state gives the same copy of what needed none. -/
theorem copyOf_eq (hinv : MemoCopy h s' O) (hext : s.Extends s') (hb : Covered h s b) :
    s'.copyOf b = s.copyOf b := by
  rcases hb with hl | hm
  · have h' : s'.memo b = none := by
      cases hc : s'.memo b with
      | none => rfl
      | some c => exact absurd hl (hinv.key b c hc).2
    have h : s.memo b = none := by
      cases hc : s.memo b with
      | none => rfl
      | some c => simp [hext.memo b c hc] at h'
    simp [CopyState.copyOf, h, h']
  · obtain ⟨c, hc⟩ := Option.ne_none_iff_exists'.1 hm
    simp [CopyState.copyOf, hc, hext.memo b c hc]

theorem enter (hinv : MemoCopy h s O) (hm : s.memo a = none) (ha : a < h.length)
    (hl : h.read a ≠ .leaf) : MemoCopy h (s.enter h a o) (a :: O) where
  key x c hx := by
    by_cases hxa : x = a
    · exact hxa ▸ ⟨ha, hl⟩
    · exact hinv.key x c (by rwa [CopyState.enter_memo_of_ne hxa] at hx)
  fresh x c hx := by
    by_cases hxa : x = a
    · subst hxa
      simp only [CopyState.enter_memo_self, Option.some.injEq] at hx
      simp only [CopyState.enter_new, List.length_append, List.length_singleton]
      omega
    · have := hinv.fresh x c (by rwa [CopyState.enter_memo_of_ne hxa] at hx)
      simp only [CopyState.enter_new, List.length_append, List.length_singleton]
      omega
  inj x y c hx hy := by
    by_cases hxa : x = a <;> by_cases hya : y = a
    · rw [hxa, hya]
    · subst hxa
      have := hinv.fresh y c (by rwa [CopyState.enter_memo_of_ne hya] at hy)
      simp at hx; omega
    · subst hya
      have := hinv.fresh x c (by rwa [CopyState.enter_memo_of_ne hxa] at hx)
      simp at hy; omega
    · exact hinv.inj x y c (by rwa [CopyState.enter_memo_of_ne hxa] at hx)
        (by rwa [CopyState.enter_memo_of_ne hya] at hy)
  onto i hi := by
    rcases Nat.lt_succ_iff_lt_or_eq.1 (by simpa using hi) with hi | rfl
    · obtain ⟨x, hx⟩ := hinv.onto i hi
      have hxa : x ≠ a := by rintro rfl; simp [hm] at hx
      exact ⟨x, by rw [CopyState.enter_memo_of_ne hxa]; exact hx⟩
    · exact ⟨a, by simp⟩
  image x c hx hxO := by
    have hxa : x ≠ a := fun e => hxO (e ▸ List.mem_cons_self _ _)
    rw [CopyState.enter_memo_of_ne hxa] at hx
    obtain ⟨himg, hcov⟩ := hinv.image x c hx fun h => hxO (List.mem_cons_of_mem _ h)
    have hext := CopyState.extends_enter (h := h) (o := o) hm
    refine ⟨?_, fun b hb => (hcov b hb).mono hext⟩
    rw [CopyState.enter_new, List.getElem?_append_left (by have := hinv.fresh x c hx; omega), himg,
      Obj.map_congr _ fun b hb => CopyState.enter_copyOf (hcov b hb) hm hl]

theorem setNew (hinv : MemoCopy h s O) (hm : s.memo a = some c) (ha : a ∈ O) :
    MemoCopy h (s.setNew h c o) O where
  key := hinv.key
  fresh x cx hx := by simpa [CopyState.setNew] using hinv.fresh x cx hx
  inj := hinv.inj
  onto i hi := hinv.onto i (by simpa [CopyState.setNew] using hi)
  image x cx hx hxO := by
    have hne : cx ≠ c := fun e => hxO (hinv.inj x a c (e ▸ hx) hm ▸ ha)
    have := hinv.fresh x cx hx
    have := hinv.fresh a c hm
    rw [CopyState.setNew, List.getElem?_set_ne (by omega)]
    exact hinv.image x cx hx hxO

theorem close (hinv : MemoCopy h s (a :: O)) (hm : s.memo a = some c)
    (himg : s.new[c - h.length]? = some ((h.read a).map s.copyOf))
    (hcov : ∀ b ∈ (h.read a).children, Covered h s b) : MemoCopy h s O where
  key := hinv.key
  fresh := hinv.fresh
  inj := hinv.inj
  onto := hinv.onto
  image x cx hx hxO := by
    by_cases hxa : x = a
    · subst hxa
      obtain rfl : cx = c := Option.some.inj (hx.symm.trans hm)
      exact ⟨himg, hcov⟩
    · exact hinv.image x cx hx (by simp [hxa, hxO])

end MemoCopy

/-! ### One call -/

/-- `s'` is where a copy started in `s` may stop: it continues `s`, keeps the invariant with the
objects `O` still open, and has not entered the objects `P` whose copy is under way. -/
structure CopyStep (h : Heap) (O P : List Nat) (s s' : CopyState) : Prop where
  ext : s.Extends s'
  inv : MemoCopy h s' O
  keep : ∀ p ∈ P, s'.memo p = s.memo p

/-- A call `m` copies `a` from `s`: it returns the copy the memo then gives for `a`, which needs no
copy any more. -/
def Copies (h : Heap) (O P : List Nat) (m : CopyM Nat) (a : Nat) (s : CopyState) : Prop :=
  ∃ s', m.run s = some (s'.copyOf a, s') ∧ CopyStep h O P s s' ∧ Covered h s' a

section Loop

variable {h : Heap} {O P : List Nat} {s₁ s₂ s₃ : CopyState}

theorem CopyStep.refl (hs : MemoCopy h s₁ O) : CopyStep h O P s₁ s₁ :=
  ⟨.refl s₁, hs, fun _ _ => rfl⟩

theorem CopyStep.trans (h₁ : CopyStep h O P s₁ s₂) (h₂ : CopyStep h O P s₂ s₃) :
    CopyStep h O P s₁ s₃ :=
  ⟨h₁.ext.trans h₂.ext, h₂.inv, fun p hp => (h₂.keep p hp).trans (h₁.keep p hp)⟩

/-- A loop whose steps each copy the references `refs x` of their element and return `out` of
their copies copies them all, and returns the outputs computed with the final memo. -/
theorem mapM_copies {α β : Type} (f : α → CopyM β) (refs : α → List Nat)
    (out : (Nat → Nat) → α → β) (Pre : CopyState → Nat → Prop)
    (hpre : ∀ {s s' b}, s.Extends s' → Pre s b → Pre s' b)
    (hout : ∀ x {φ ψ : Nat → Nat}, (∀ b ∈ refs x, φ b = ψ b) → out φ x = out ψ x)
    (hf : ∀ x s, MemoCopy h s O → (∀ b ∈ refs x, Pre s b) → ∃ s', (f x).run s =
      some (out s'.copyOf x, s') ∧ CopyStep h O P s s' ∧ ∀ b ∈ refs x, Covered h s' b) :
    ∀ (xs : List α) (s : CopyState), MemoCopy h s O → (∀ x ∈ xs, ∀ b ∈ refs x, Pre s b) →
      ∃ s', (xs.mapM f).run s = some (xs.map (out s'.copyOf), s') ∧ CopyStep h O P s s' ∧
        ∀ x ∈ xs, ∀ b ∈ refs x, Covered h s' b
  | [], s, hs, _ => ⟨s, by simp only [List.mapM_nil, StateT.run_pure]; rfl, .refl hs, by simp⟩
  | x :: xs, s, hs, hready => by
    obtain ⟨s₁, hrun₁, st₁, cov₁⟩ := hf x s hs (hready x (List.mem_cons_self _ _))
    obtain ⟨s₂, hrun₂, st₂, cov₂⟩ := mapM_copies f refs out Pre hpre hout hf xs s₁ st₁.inv
      fun y hy b hb => hpre st₁.ext (hready y (List.mem_cons_of_mem _ hy) b hb)
    refine ⟨s₂, ?_, st₁.trans st₂, ?_⟩
    · have e : out s₁.copyOf x = out s₂.copyOf x :=
        hout x fun b hb => (st₂.inv.copyOf_eq st₂.ext (cov₁ b hb)).symm
      simp only [List.mapM_cons, StateT.run_bind, hrun₁, Option.bind_eq_bind, Option.some_bind, hrun₂,
        StateT.run_pure, List.map_cons, e]
      rfl
    · rintro y (_ | ⟨_, hy⟩) b hb
      · exact (cov₁ b hb).mono st₂.ext
      · exact cov₂ y hy b hb

/-- A step that copies one reference and wraps its copy. -/
theorem Copies.map_run {β : Type} {m : CopyM Nat} {b : Nat} (g : Nat → β)
    (hc : Copies h O P m b s₁) : ∃ s', (g <$> m).run s₁ = some (g (s'.copyOf b), s') ∧
      CopyStep h O P s₁ s' ∧ ∀ b' ∈ [b], Covered h s' b' := by
  obtain ⟨s', hrun, st, cov⟩ := hc
  exact ⟨s', by simp [hrun], st, by simpa using cov⟩

/-- `copyRefs` copies the copied references of an object, and returns the object with each
replaced by its copy. -/
theorem copyRefs_copies {copy : Nat → CopyM Nat} (Pre : CopyState → Nat → Prop)
    (hpre : ∀ {s s' b}, s.Extends s' → Pre s b → Pre s' b)
    (hcopy : ∀ b s, MemoCopy h s O → Pre s b → Copies h O P (copy b) b s)
    (o : Obj) (s : CopyState) (hs : MemoCopy h s O) (hready : ∀ b ∈ o.children, Pre s b) :
    ∃ s', (copyRefs copy o).run s = some (o.map s'.copyOf, s') ∧ CopyStep h O P s s' ∧
      ∀ b ∈ o.children, Covered h s' b := by
  cases o with
  | leaf => exact ⟨s, rfl, .refl hs, by simp [Obj.children]⟩
  | seq k items =>
    obtain ⟨s', hrun, st, cov⟩ := mapM_copies copy (fun b => [b]) (fun φ b => φ b) Pre hpre
      (fun x _ _ hx => hx x (List.mem_singleton_self x))
      (fun b s hs hb =>
        let ⟨s', hrun, st, cov⟩ := hcopy b s hs (hb b (List.mem_singleton_self b))
        ⟨s', hrun, st, by simpa using cov⟩)
      items s hs (by simpa [Obj.children] using hready)
    exact ⟨s', by simp only [copyRefs, StateT.run_map, hrun]; rfl, st, by simpa [Obj.children] using cov⟩
  | dict entries =>
    obtain ⟨s', hrun, st, cov⟩ := mapM_copies
      (fun e => do
        let v ← copy e.2
        let k ← copy e.1
        pure (k, v))
      (fun e => [e.2, e.1]) (fun φ e => (φ e.1, φ e.2)) Pre hpre
      (fun x _ _ hx => Prod.ext (hx x.1 (by simp)) (hx x.2 (by simp)))
      (fun e s hs he => by
        obtain ⟨s₁, hrun₁, st₁, cov₁⟩ := hcopy e.2 s hs (he e.2 (by simp))
        obtain ⟨s₂, hrun₂, st₂, cov₂⟩ := hcopy e.1 s₁ st₁.inv (hpre st₁.ext (he e.1 (by simp)))
        refine ⟨s₂, ?_, st₁.trans st₂, by simpa using ⟨cov₁.mono st₂.ext, cov₂⟩⟩
        simp [hrun₁, hrun₂, st₂.inv.copyOf_eq st₂.ext cov₁])
      entries s hs fun e he b hb => hready b (List.mem_flatMap.2 ⟨e, he, hb⟩)
    refine ⟨s', by simp only [copyRefs, StateT.run_map, hrun]; rfl, st, fun b hb => ?_⟩
    obtain ⟨e, he, hb⟩ := List.mem_flatMap.1 hb
    exact cov e he b hb
  | record cls fields =>
    obtain ⟨s', hrun, st, cov⟩ := mapM_copies
      (fun f => if f.1 ∈ copiedFields cls then (f.1, ·) <$> copy f.2 else pure f)
      (fun f => if f.1 ∈ copiedFields cls then [f.2] else [])
      (fun φ f => (f.1, if f.1 ∈ copiedFields cls then φ f.2 else f.2)) Pre hpre
      (fun f _ _ hf => by dsimp only; split_ifs with hk <;> simp_all)
      (fun f s hs hf => by
        by_cases hk : f.1 ∈ copiedFields cls
        · simpa [hk] using (hcopy f.2 s hs (hf f.2 (by simp [hk]))).map_run (f.1, ·)
        · exact ⟨s, by simp [hk], .refl hs, by simp [hk]⟩)
      fields s hs fun f hf b hb => by
        by_cases hk : f.1 ∈ copiedFields cls
        · simp only [hk, if_true, List.mem_singleton] at hb
          exact hready b (hb ▸ List.mem_map_of_mem _ (List.mem_filter.2 ⟨hf, by simpa using hk⟩))
        · simp [hk] at hb
    refine ⟨s', by simp only [copyRefs, StateT.run_map, hrun]; rfl, st, fun b hb => ?_⟩
    simp only [Obj.children, List.mem_map, List.mem_filter] at hb
    obtain ⟨f, ⟨hf, hk⟩, rfl⟩ := hb
    exact cov f hf f.2 (by simp_all)
  | object attrs =>
    obtain ⟨s', hrun, st, cov⟩ := mapM_copies (fun f => (f.1, ·) <$> copy f.2) (fun f => [f.2])
      (fun φ f => (f.1, φ f.2)) Pre hpre
      (fun f _ _ hf => congrArg (Prod.mk f.1) (hf f.2 (List.mem_singleton_self _)))
      (fun f s hs hf => (hcopy f.2 s hs (hf f.2 (List.mem_singleton_self _))).map_run (f.1, ·))
      attrs s hs fun f hf b hb => hready b (List.mem_map.2 ⟨f, hf, (List.mem_singleton.1 hb).symm⟩)
    refine ⟨s', by simp only [copyRefs, StateT.run_map, hrun]; rfl, st, fun b hb => ?_⟩
    obtain ⟨f, hf, rfl⟩ := List.mem_map.1 hb
    exact cov f hf f.2 (List.mem_singleton_self _)

end Loop

/-! ### What a call needs -/

/-- The originals the copy has not entered: neither in the memo nor being copied. -/
def unvisited (h : Heap) (s : CopyState) (P : List Nat) : Nat :=
  ((List.range h.length).filter fun x => s.memo x = none ∧ x ∉ P).length

section Ready

variable {h : Heap} {roots : List Nat} {s s' : CopyState} {P P' O : List Nat} {fuel a b : Nat}

theorem unvisited_le (hm : ∀ x, s'.memo x = none → s.memo x = none) (hP : ∀ x ∈ P, x ∈ P') :
    unvisited h s' P' ≤ unvisited h s P :=
  (List.monotone_filter_right _ fun x hx => by
    simp only [decide_eq_true_eq] at hx ⊢
    exact ⟨hm x hx.1, fun hp => hx.2 (hP x hp)⟩).length_le

/-- Entering one more original leaves fewer unvisited. -/
theorem unvisited_lt (hm : ∀ x, s'.memo x = none → s.memo x = none) (hP : ∀ x ∈ P, x ∈ P')
    (ha : a < h.length) (hsa : s.memo a = none) (haP : a ∉ P) (hin : s'.memo a ≠ none ∨ a ∈ P') :
    unvisited h s' P' < unvisited h s P := by
  unfold unvisited
  have e : (List.range h.length).filter (fun x => s'.memo x = none ∧ x ∉ P') =
      ((List.range h.length).filter fun x => s.memo x = none ∧ x ∉ P).filter
        fun x => s'.memo x = none ∧ x ∉ P' := by
    rw [List.filter_filter]
    refine List.filter_congr fun x _ => ?_
    rw [Bool.eq_iff_iff]
    simp only [Bool.and_eq_true, decide_eq_true_eq]
    exact ⟨fun hx => ⟨hx, hm x hx.1, fun hp => hx.2 (hP x hp)⟩, fun hx => hx.1⟩
  rw [e]
  refine List.length_filter_lt_length_iff_exists.2 ⟨a, by simp [ha, hsa, haP], ?_⟩
  simp only [decide_eq_true_eq, not_and, not_not]
  rcases hin with hin | hin
  · exact fun h => absurd h hin
  · exact fun _ => hin

/-- What a call on `a` needs of the state it starts in, `P` being the containers and rebuilt
objects whose copy is under way. -/
structure CopyReady (h : Heap) (roots : List Nat) (s : CopyState) (P : List Nat) (fuel a : Nat) :
    Prop where
  /-- `a` is an original -/
  lt : a < h.length
  /-- reachable from the roots; -/
  reach : Reachable h roots a
  /-- every other generic object on every path from the roots to `a` has been entered; -/
  dom : ∀ e, e ≠ a → (h.read e).isObject = true → Dominates h roots e a → s.memo e ≠ none
  /-- no path that avoids the memo leads to a copy under way; -/
  fresh : ∀ p ∈ P, ¬ ReachAvoiding h (fun x => s.memo x ≠ none) a p
  /-- and the depth left exceeds the number of originals not entered. -/
  fuel : unvisited h s P < fuel

namespace CopyReady

theorem mono (hext : s.Extends s') (hr : CopyReady h roots s P fuel a) :
    CopyReady h roots s' P fuel a where
  lt := hr.lt
  reach := hr.reach
  dom e hea he hd := hext.ne_none (hr.dom e hea he hd)
  fresh p hp r := hr.fresh p hp (r.mono fun _ => hext.ne_none)
  fuel := Nat.lt_of_le_of_lt
    (unvisited_le (fun _ => hext.eq_none) fun _ => id) hr.fuel

/-- An original that is not in the memo is not under way either. -/
theorem not_mem (hr : CopyReady h roots s P fuel a) (hm : s.memo a = none) : a ∉ P :=
  fun hp => hr.fresh a hp (.refl (not_not.2 hm))

/-- The children of a container or rebuilt object are ready once it is under way. -/
theorem child_late (hh : h.Closed) (hcut : CyclesCut h roots)
    (hr : CopyReady h roots s P (fuel + 1) a) (hm : s.memo a = none)
    (ho : (h.read a).isObject = false) (hb : b ∈ (h.read a).children) :
    CopyReady h roots s (a :: P) fuel b where
  lt := hh.lt hb
  reach := hr.reach.child hb
  dom e heb he hd := by
    rcases hd.of_child hb heb with rfl | ⟨hea, hd⟩
    · simp [ho] at he
    · exact hr.dom e hea he hd
  fresh p hp r := by
    rcases List.mem_cons.1 hp with rfl | hp
    · refine hcut p ho hr.reach b hb (r.mono fun e ⟨he, hd⟩ => hr.dom e ?_ he hd)
      rintro rfl
      simp [ho] at he
    · exact hr.fresh p hp (.step (not_not.2 hm) hb r)
  fuel := by
    have := unvisited_lt (fun x hx => hx) (fun x hx => List.mem_cons_of_mem a hx) hr.lt hm
      (hr.not_mem hm) (.inr (List.mem_cons_self a P))
    have := hr.fuel
    omega

/-- The attributes of a generic object are ready once it is entered. -/
theorem child_object (hh : h.Closed) (hr : CopyReady h roots s P (fuel + 1) a)
    (hm : s.memo a = none) (hb : b ∈ (h.read a).children) {o : Obj} :
    CopyReady h roots (s.enter h a o) P fuel b where
  lt := hh.lt hb
  reach := hr.reach.child hb
  dom e heb he hd := by
    rcases hd.of_child hb heb with rfl | ⟨hea, hd⟩
    · simp
    · exact (CopyState.extends_enter hm).ne_none (hr.dom e hea he hd)
  fresh p hp r :=
    hr.fresh p hp (.step (not_not.2 hm) hb (r.mono fun _ => (CopyState.extends_enter hm).ne_none))
  fuel := by
    have := @unvisited_lt h s (s.enter h a o) P P a (fun _ => (CopyState.extends_enter hm).eq_none)
      (fun _ => id) hr.lt hm (hr.not_mem hm) (.inl (by simp))
    have := hr.fuel
    omega

end CopyReady

end Ready

/-! ### The copy is a copy -/

section Copy

variable {h : Heap} {roots : List Nat} {s : CopyState} {P O : List Nat} {fuel a : Nat}

/-- A container or a rebuilt object is copied once its copied references are, and entered in the
memo then. -/
theorem copies_late (hh : h.Closed) (hcut : CyclesCut h roots)
    (ih : ∀ b s P O, MemoCopy h s O → CopyReady h roots s P fuel b →
      Copies h O P (relativelyDeepCopy h fuel b) b s)
    (hs : MemoCopy h s O) (hr : CopyReady h roots s P (fuel + 1) a) (hm : s.memo a = none)
    (hl : h.read a ≠ .leaf) (ho : (h.read a).isObject = false) :
    Copies h O P (relativelyDeepCopy h (fuel + 1) a) a s := by
  obtain ⟨s₁, hrun, st, hcov⟩ := copyRefs_copies (fun s b => CopyReady h roots s (a :: P) fuel b)
    (fun hext hb => hb.mono hext) (fun b s hs hb => ih b s (a :: P) O hs hb) (h.read a) s hs
    fun b hb => hr.child_late hh hcut hm ho hb
  have hm₁ : s₁.memo a = none := (st.keep a (List.mem_cons_self a P)).trans hm
  have hext : s₁.Extends (s₁.enter h a ((h.read a).map s₁.copyOf)) := CopyState.extends_enter hm₁
  have hcopy : (h.read a).map (s₁.enter h a ((h.read a).map s₁.copyOf)).copyOf =
      (h.read a).map s₁.copyOf :=
    Obj.map_congr _ fun b hb => CopyState.enter_copyOf (hcov b hb) hm₁ hl
  refine ⟨s₁.enter h a ((h.read a).map s₁.copyOf), ?_, ⟨st.ext.trans hext, ?_, fun p hp => ?_⟩,
    .inr (by simp)⟩
  · rw [relativelyDeepCopy_late hm hl ho]
    simp only [StateT.run_bind, hrun, Option.bind_eq_bind, Option.some_bind]
    simp [CopyState.copyOf]
  · refine (st.inv.enter hm₁ hr.lt hl).close CopyState.enter_memo_self ?_
      fun b hb => (hcov b hb).mono hext
    simp [hcopy]
  · have hpa : p ≠ a := by rintro rfl; exact hr.not_mem hm hp
    rw [CopyState.enter_memo_of_ne hpa]
    exact st.keep p (List.mem_cons_of_mem a hp)

/-- A generic object is entered in the memo, then its attributes are copied and set. -/
theorem copies_object (hh : h.Closed)
    (ih : ∀ b s P O, MemoCopy h s O → CopyReady h roots s P fuel b →
      Copies h O P (relativelyDeepCopy h fuel b) b s)
    (hs : MemoCopy h s O) (hr : CopyReady h roots s P (fuel + 1) a) (hm : s.memo a = none)
    {attrs : List (String × Nat)} (hl : h.read a = .object attrs) :
    Copies h O P (relativelyDeepCopy h (fuel + 1) a) a s := by
  have hext₁ : s.Extends (s.enter h a (.object attrs)) := CopyState.extends_enter hm
  obtain ⟨s₂, hrun, st, hcov⟩ := copyRefs_copies (fun s b => CopyReady h roots s P fuel b)
    (fun hext hb => hb.mono hext) (fun b s hs hb => ih b s P (a :: O) hs hb) (.object attrs)
    (s.enter h a (.object attrs)) (hs.enter hm hr.lt (by simp [hl]))
    fun b hb => hr.child_object hh hm (hl ▸ hb)
  have hm₂ : s₂.memo a = some (h.length + s.new.length) := st.ext.memo a _ (by simp)
  have hinv₂ := st.inv.setNew (o := (Obj.object attrs).map s₂.copyOf) hm₂ (List.mem_cons_self a O)
  refine ⟨s₂.setNew h (h.length + s.new.length) ((Obj.object attrs).map s₂.copyOf), ?_,
    ⟨CopyState.extends_setNew (hext₁.trans st.ext) (by simp), ?_, fun p hp => ?_⟩,
    .inr (by simp [CopyState.setNew, hm₂])⟩
  · rw [relativelyDeepCopy_object hm hl]
    simp only [StateT.run_bind, memoNew_run, Option.bind_eq_bind, Option.some_bind, hrun,
      setAttrs_run]
    simp [CopyState.copyOf, CopyState.setNew, hm₂]
  · refine hinv₂.close hm₂ ?_ fun b hb => hl ▸ hcov b (hl ▸ hb)
    have := (st.inv.fresh a _ hm₂).2
    rw [CopyState.setNew, List.getElem?_set_self (by omega), hl]
    rfl
  · have hpa : p ≠ a := by rintro rfl; exact hr.not_mem hm hp
    rw [CopyState.setNew, st.keep p hp, CopyState.enter_memo_of_ne hpa]

/-- **Each call copies.**  From a state whose memo holds a copy, a call with enough depth on an
original that no path avoiding the memo leads back to a copy under way returns the copy the memo
then holds for it. -/
theorem relativelyDeepCopy_copies (hh : h.Closed) (hcut : CyclesCut h roots) :
    ∀ fuel a s P O, MemoCopy h s O → CopyReady h roots s P fuel a →
      Copies h O P (relativelyDeepCopy h fuel a) a s := by
  intro fuel
  induction fuel with
  | zero => exact fun a s P O _ hr => absurd hr.fuel (Nat.not_lt_zero _)
  | succ fuel ih =>
    intro a s P O hs hr
    cases hm : s.memo a with
    | some c =>
      exact ⟨s, by rw [relativelyDeepCopy_memo hm]; simp [CopyState.copyOf, hm], .refl hs,
        .inr (by simp [hm])⟩
    | none =>
      by_cases hl : h.read a = .leaf
      · exact ⟨s, by rw [relativelyDeepCopy_leaf hm hl]; simp [CopyState.copyOf, hm], .refl hs,
          .inl hl⟩
      cases ho : (h.read a).isObject
      · exact copies_late hh hcut ih hs hr hm hl ho
      · obtain ⟨attrs, hattrs⟩ : ∃ attrs, h.read a = .object attrs := by
          cases hr' : h.read a <;> simp_all [Obj.isObject]
        exact copies_object hh ih hs hr hm hattrs

end Copy

/-! ### `DPPYLower.__init__` -/

section Init

variable {h : Heap} {roots : List Nat} {s : CopyState} {O : List Nat} {fuel r a b : Nat}

/-- A root is ready in any state, with enough depth and no copy under way. -/
theorem CopyReady.root (hr : r ∈ roots) (hlt : r < h.length) (hfuel : h.length < fuel) :
    CopyReady h roots s [] fuel r where
  lt := hlt
  reach := ⟨r, hr, .refl id⟩
  dom _ her _ hd := absurd (.refl fun h => her h.symm) (hd r hr)
  fresh _ h := nomatch h
  fuel := Nat.lt_of_le_of_lt ((List.length_filter_le _ _).trans (List.length_range _).le) hfuel

/-- The copy the memo gives is the original exactly for the leaves. -/
theorem MemoCopy.copyOf_eq_self_iff (hinv : MemoCopy h s O) (hcov : Covered h s a)
    (ha : a < h.length) : s.copyOf a = a ↔ h.read a = .leaf := by
  cases hm : s.memo a with
  | none =>
    rcases hcov with hl | hm'
    · simp [CopyState.copyOf, hm, hl]
    · exact absurd hm hm'
  | some c =>
    have := (hinv.fresh a c hm).1
    simp only [CopyState.copyOf, hm, Option.getD_some, (hinv.key a c hm).2, iff_false]
    omega

/-- No two originals that need no copy have the same copy. -/
theorem MemoCopy.copyOf_inj (hinv : MemoCopy h s O) (ha : Covered h s a) (hb : Covered h s b)
    (ha' : a < h.length) (hb' : b < h.length) (e : s.copyOf a = s.copyOf b) : a = b := by
  have hself := fun {x} (hx : Covered h s x) (hx' : x < h.length) (hl : h.read x = .leaf) =>
    (hinv.copyOf_eq_self_iff hx hx').2 hl
  cases hma : s.memo a with
  | none =>
    have hl : h.read a = .leaf := ha.resolve_right (not_not.2 hma)
    cases hmb : s.memo b with
    | none => rwa [hself ha ha' hl, hself hb hb' (hb.resolve_right (not_not.2 hmb))] at e
    | some c =>
      have := (hinv.fresh b c hmb).1
      simp [CopyState.copyOf, hma, hmb] at e
      omega
  | some c =>
    cases hmb : s.memo b with
    | none =>
      have := (hinv.fresh a c hma).1
      simp [CopyState.copyOf, hma, hmb] at e
      omega
    | some d =>
      simp only [CopyState.copyOf, hma, hmb, Option.getD_some] at e
      exact hinv.inj a b c hma (e ▸ hmb)

/-- **The copy is a copy.**  On every heap whose cycles through containers and rebuilt objects
are cut by a generic object on every path to them, with a recursion depth above the number of
objects, `DPPYLower.__init__` copies the descriptor and then the IR: both calls return, and the
memo they leave pairs the originals they reach one to one with the objects they create (the
identity exactly on the leaves), each created object being its original with its copied
references replaced by their copies. -/
theorem dppyLowerInit_copies {fndesc funcIr : Nat} (hh : h.Closed) (hd : fndesc < h.length)
    (hi : funcIr < h.length) (hcut : CyclesCut h [fndesc, funcIr]) (hfuel : h.length < fuel) :
    ∃ s, (dppyLowerInit h fuel fndesc funcIr).run CopyState.init =
        some ((s.copyOf fndesc, s.copyOf funcIr), s) ∧
      MemoCopy h s [] ∧ Covered h s fndesc ∧ Covered h s funcIr ∧
      (∀ a < h.length, Covered h s a → (s.copyOf a = a ↔ h.read a = .leaf)) ∧
      ∀ a < h.length, ∀ b < h.length, Covered h s a → Covered h s b →
        s.copyOf a = s.copyOf b → a = b := by
  obtain ⟨s₁, hrun₁, st₁, cov₁⟩ := relativelyDeepCopy_copies hh hcut fuel fndesc _ [] [] .init
    (.root (List.mem_cons_self _ _) hd hfuel)
  obtain ⟨s₂, hrun₂, st₂, cov₂⟩ := relativelyDeepCopy_copies hh hcut fuel funcIr s₁ [] [] st₁.inv
    (.root (List.mem_cons_of_mem _ (List.mem_singleton_self _)) hi hfuel)
  refine ⟨s₂, ?_, st₂.inv, cov₁.mono st₂.ext, cov₂,
    fun a ha hcov => st₂.inv.copyOf_eq_self_iff hcov ha,
    fun a ha b hb hca hcb => st₂.inv.copyOf_inj hca hcb ha hb⟩
  simp only [dppyLowerInit, StateT.run_bind, hrun₁, Option.bind_eq_bind, Option.some_bind, hrun₂,
    StateT.run_pure, st₂.inv.copyOf_eq st₂.ext cov₁]
  rfl

end Init

/-- A function descriptor (at `0`) and its IR (at `1`): the descriptor's typemap, its calltypes,
keyed by the IR's one statement, its argument names and types and its `global_dict`; the IR's one
block, whose body is that statement; `12` stands for the strings, booleans and types, `13` for a
`Loc`. -/
def descriptorHeap : Heap :=
  [.record .functionDescriptor [("native", 12), ("modname", 12), ("qualname", 12),
      ("unique_name", 12), ("doc", 12), ("typemap", 2), ("restype", 12), ("calltypes", 3),
      ("args", 11), ("kws", 14), ("argtypes", 4), ("inline", 12), ("noalias", 12),
      ("env_name", 12), ("global_dict", 5), ("mangled_name", 12)],
    .record .functionIR [("blocks", 6), ("is_generator", 12), ("func_id", 12), ("loc", 13),
      ("_definitions", 9), ("arg_count", 12), ("arg_names", 11)],
    .dict [(12, 12)], .dict [(10, 12)], .seq .tuple [12], .dict [], .dict [(12, 7)],
    .object [("body", 8), ("scope", 12), ("loc", 13)], .seq .list [10], .dict [],
    .object [("target", 12), ("value", 12), ("loc", 13)], .seq .tuple [12], .leaf, .object [],
    .seq .tuple []]

/-- A descriptor (at `0`) and an IR (at `1`) whose one block has a scope: the scope's `localvars`
(a `VarMap`, at `9`) holds in its dict `_con` a variable whose `scope` is that scope again, a cycle
through a dict that the scope, a generic object, cuts; `12` is the IR's `_definitions` and `13`
stands for the strings, `None` and the `Loc`s. -/
def scopeHeap : Heap :=
  [.record .functionDescriptor [("typemap", 2), ("calltypes", 3), ("argtypes", 4)],
    .record .functionIR [("blocks", 5), ("is_generator", 13), ("func_id", 13), ("loc", 13),
      ("_definitions", 12), ("arg_count", 13), ("arg_names", 4)],
    .dict [(13, 13)], .dict [], .seq .tuple [13], .dict [(13, 6)],
    .object [("body", 7), ("scope", 8), ("loc", 13)], .seq .list [],
    .object [("localvars", 9), ("parent", 13), ("loc", 13)], .object [("_con", 10)],
    .dict [(13, 11)], .object [("scope", 8), ("name", 13), ("loc", 13)], .dict [], .leaf]

/-- Every path from the roots to the scope's contents passes through the scope. -/
theorem scopeHeap_dominates {l : Nat} (hl : l ∈ [8, 9, 10, 11]) :
    Dominates scopeHeap [0, 1] 8 l := fun r hr p =>
  p.mem_of_closed (Z := fun x => x ∉ [8, 9, 10, 11])
    (Heap.forall_children (P := fun x y => x ∉ [8, 9, 10, 11] → ¬ y = 8 → y ∉ [8, 9, 10, 11])
      (by beta_reduce; decide))
    (by simp at hr; rcases hr with rfl | rfl <;> decide) hl

/-- The objects above the scope with references are the scope's contents. -/
theorem scopeHeap_above {l : Nat} (hl : 8 < l) (hne : (scopeHeap.read l).children ≠ []) :
    l ∈ [8, 9, 10, 11] := by
  by_cases hx : l < scopeHeap.length
  · revert hne hl
    revert l
    decide
  · simp [Heap.read_of_le (Nat.le_of_not_lt hx), Obj.children] at hne

theorem dppyLowerInit_copies_scopeHeap :
    8 ∈ (scopeHeap.read 11).children ∧ scopeHeap.Closed ∧ 0 < scopeHeap.length ∧
      1 < scopeHeap.length ∧ CyclesCut scopeHeap [0, 1] ∧ scopeHeap.length < 20 ∧
      ∃ s, (dppyLowerInit scopeHeap 20 0 1).run CopyState.init =
          some ((s.copyOf 0, s.copyOf 1), s) ∧
        MemoCopy scopeHeap s [] ∧ Covered scopeHeap s 0 ∧ Covered scopeHeap s 1 ∧
        (∀ a < scopeHeap.length, Covered scopeHeap s a →
          (s.copyOf a = a ↔ scopeHeap.read a = .leaf)) ∧
        ∀ a < scopeHeap.length, ∀ b < scopeHeap.length, Covered scopeHeap s a →
          Covered scopeHeap s b → s.copyOf a = s.copyOf b → a = b :=
  have hh : scopeHeap.Closed := by decide
  have hcut : CyclesCut scopeHeap [0, 1] := cyclesCut_of_lt_or_cut (c := 8) rfl
    (Heap.forall_children (P := fun x y => x < y ∨ y = 8) (by beta_reduce; decide))
    fun _ hl hne _ => scopeHeap_dominates (scopeHeap_above hl hne)
  ⟨by decide, hh, by decide, by decide, hcut, by decide,
    dppyLowerInit_copies hh (by decide) (by decide) hcut (by decide)⟩

/-- The copied descriptor holds the original's `global_dict`, a dict: the copies share a mutable
object with the originals. -/
theorem dppyLowerInit_shares_global_dict :
    ∃ c₁ c₂ s fields, (dppyLowerInit descriptorHeap 20 0 1).run CopyState.init =
        some ((c₁, c₂), s) ∧
      s.new[c₁ - descriptorHeap.length]? = some (.record .functionDescriptor fields) ∧
      ("global_dict", 5) ∈ fields ∧ descriptorHeap.read 5 = .dict [] :=
  ⟨_, _, _, _, rfl, rfl, by decide, rfl⟩

/-- A list whose first item is itself is never copied: its copy starts by copying it again, until
the depth runs out (`RecursionError`). -/
theorem relativelyDeepCopy_self_list {h : Heap} {a : Nat} {rest : List Nat}
    (hl : h.read a = .seq .list (a :: rest)) (fuel : Nat) (s : CopyState) (hm : s.memo a = none) :
    (relativelyDeepCopy h fuel a).run s = none := by
  induction fuel with
  | zero => rfl
  | succ fuel ih =>
    rw [relativelyDeepCopy_late hm (by simp [hl]) (by simp [hl, Obj.isObject])]
    simp only [StateT.run_bind, hl, copyRefs, StateT.run_map, List.mapM_cons, ih,
      Option.bind_eq_bind, Option.none_bind, Option.map_eq_map, Option.map_none']

/-- At Python's default recursion limit. -/
theorem relativelyDeepCopy_self_list_limit :
    (relativelyDeepCopy [.seq .list [0]] 1000 0).run CopyState.init = none :=
  @relativelyDeepCopy_self_list [.seq .list [0]] 0 [] rfl 1000 CopyState.init rfl

end ParforOffload
