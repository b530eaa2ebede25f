/-
**Splicing the loop body into the kernel stub.**

`_create_gufunc_for_parfor_body` writes the kernel stub as Python text — the schedule, then the
assignment of `0` to a fresh sentinel variable, then `return None` — and takes its IR from numba's
front end.  It then shifts the labels of the loop body above those of the stub, splits the block
that assigns the sentinel, puts the loop body between the two halves, and finally renames the
labels (`rename_labels`) and drops the `del` statements (`remove_dels`).

This module gives the blocks of a function a path semantics — a path runs the statements of a
block, follows its terminator, and ends at a `return` or by falling off a block with no
terminator — and proves that the splice does what it is meant to do: the kernel's blocks are well
formed, and its paths are the stub's paths in which the sentinel assignment is replaced by a path
through the loop body.

Main definitions:

* `ParforOffload.Run`, `ParforOffload.Path` — the paths of a function body;
* `ParforOffload.relabel` — a renaming of labels, which `add_offset_to_labels` and
  `rename_labels` both are;
* `ParforOffload.spliceLoopBody` — the splice at the sentinel;
* `ParforOffload.buildKernelBlocks` — the splice, `rename_labels` and `remove_dels`.

Main results:

* `ParforOffload.path_relabel_iff` — a renaming that is injective where it is used keeps the
  paths;
* `ParforOffload.path_removeDels_iff` — `remove_dels` drops the `del` statements from every path;
* `ParforOffload.SpliceShape.path_iff` — the paths of a spliced body;
* `ParforOffload.buildKernelBlocks_spec` — the blocks of the kernel.
-/

import ParforOffload.Ir

set_option autoImplicit false

namespace ParforOffload

/-! ### Control flow of a function body -/

/-- `isinstance(stmt, (ir.Jump, ir.Branch, ir.Return))`: a statement that ends a block. -/
def Stmt.isTerminator : Stmt → Bool
  | .jump _ | .branch .. | .ret _ => true
  | _ => false

/-- The labels a jump or a branch goes to. -/
def Stmt.targets : Stmt → List Nat
  | .jump t => [t]
  | .branch _ t f => [t, f]
  | _ => []

/-- A jump or a branch with its targets renamed by `σ`; other statements are left alone. -/
def Stmt.mapTargets (σ : Nat → Nat) : Stmt → Stmt
  | .jump t => .jump (σ t)
  | .branch c t f => .branch c (σ t) (σ f)
  | s => s

@[simp] theorem Stmt.isTerminator_mapTargets (σ : Nat → Nat) (s : Stmt) :
    (s.mapTargets σ).isTerminator = s.isTerminator := by
  cases s <;> rfl

@[simp] theorem Stmt.targets_mapTargets (σ : Nat → Nat) (s : Stmt) :
    (s.mapTargets σ).targets = s.targets.map σ := by
  cases s <;> rfl

theorem Stmt.mapTargets_of_not_isTerminator {s : Stmt} (h : s.isTerminator = false)
    (σ : Nat → Nat) : s.mapTargets σ = s := by
  cases s <;> simp_all [Stmt.isTerminator, Stmt.mapTargets]

theorem Stmt.isTerminator_of_mem_targets {s : Stmt} {l : Nat} (h : l ∈ s.targets) :
    s.isTerminator = true := by
  cases s <;> simp_all [Stmt.targets, Stmt.isTerminator]

/-- A `return` is the image of a `return` only. -/
theorem Stmt.mapTargets_eq_ret {σ : Nat → Nat} {s : Stmt} {v : String}
    (h : s.mapTargets σ = .ret v) : s = .ret v := by
  cases s <;> simp_all [Stmt.mapTargets]

/-- A block with its last statement `b.body[-1]` replaced by `f` of it, as numba's label passes
rewrite a block's terminator. -/
def mapLast (f : Stmt → Stmt) (b : Block) : Block :=
  b.dropLast ++ (b.getLast?.map f).toList

@[simp] theorem mapLast_nil (f : Stmt → Stmt) : mapLast f [] = [] := rfl

@[simp] theorem mapLast_append_singleton (f : Stmt → Stmt) (pre : Block) (t : Stmt) :
    mapLast f (pre ++ [t]) = pre ++ [f t] := by
  simp [mapLast]

theorem getLast?_mapLast (f : Stmt → Stmt) (b : Block) :
    (mapLast f b).getLast? = b.getLast?.map f := by
  rcases List.eq_nil_or_concat b with rfl | ⟨pre, t, rfl⟩
  · rfl
  · simp

theorem mapLast_eq_append {f : Stmt → Stmt} {b pre : Block} {t' : Stmt}
    (h : mapLast f b = pre ++ [t']) : ∃ t, b = pre ++ [t] ∧ f t = t' := by
  rcases List.eq_nil_or_concat b with rfl | ⟨pre₀, t, rfl⟩
  · simp at h
  · rw [List.concat_eq_append, mapLast_append_singleton] at h
    obtain ⟨rfl, h'⟩ := List.append_inj' h rfl
    exact ⟨t, by rw [List.concat_eq_append], List.singleton_inj.1 h'⟩

/-- Renaming targets leaves a block alone when its last statement is no jump or branch. -/
theorem mapLast_mapTargets_of_getLast? {b : Block}
    (h : ∀ s ∈ b.getLast?, s.isTerminator = false) (σ : Nat → Nat) :
    mapLast (Stmt.mapTargets σ) b = b := by
  rcases List.eq_nil_or_concat b with rfl | ⟨pre, t, rfl⟩
  · rfl
  · rw [List.concat_eq_append] at h ⊢
    rw [mapLast_append_singleton, Stmt.mapTargets_of_not_isTerminator (h t (by simp))]

/-- The targets of a block's last statement. -/
def lastTargets (b : Block) : List Nat := b.getLast?.toList.flatMap Stmt.targets

@[simp] theorem lastTargets_append_singleton (pre : Block) (t : Stmt) :
    lastTargets (pre ++ [t]) = t.targets := by
  simp [lastTargets]

/-- The labels of a function body, `blocks.keys()`. -/
def blockLabels (bs : Blocks) : List Nat := bs.map Prod.fst

@[simp] theorem blockLabels_nil : blockLabels [] = [] := rfl

@[simp] theorem blockLabels_cons (p : Nat × Block) (bs : Blocks) :
    blockLabels (p :: bs) = p.1 :: blockLabels bs := rfl

theorem mem_of_lookup {bs : Blocks} {l : Nat} {b : Block} (h : bs.lookup l = some b) :
    (l, b) ∈ bs := by
  obtain ⟨_, _, rfl, _⟩ := List.lookup_eq_some_iff.1 h
  simp

theorem mem_blockLabels_of_lookup {bs : Blocks} {l : Nat} {b : Block}
    (h : bs.lookup l = some b) : l ∈ blockLabels bs :=
  List.mem_map_of_mem Prod.fst (mem_of_lookup h)

/-- `Run bs b tr`: running the statements `b` of a block of `bs`, and then the blocks its
terminators go to, can execute the statements `tr` and leave the function, at a `return` or by
falling off a block that has no terminator.  Branch conditions are not evaluated: a branch can go
to either target.  The trace keeps the `return` and leaves out the jumps and branches. -/
inductive Run (bs : Blocks) : Block → List Stmt → Prop
  | exit {b : Block} : (∀ s ∈ b.getLast?, s.isTerminator = false) → Run bs b b
  | ret {pre : Block} {v : String} : Run bs (pre ++ [.ret v]) (pre ++ [.ret v])
  | goto {pre : Block} {t : Stmt} {l : Nat} {b tr : List Stmt} :
      l ∈ t.targets → bs.lookup l = some b → Run bs b tr → Run bs (pre ++ [t]) (pre ++ tr)

/-- The paths of `bs` from the block labelled `l`. -/
def Path (bs : Blocks) (l : Nat) (tr : List Stmt) : Prop :=
  ∃ b, bs.lookup l = some b ∧ Run bs b tr

/-- Statements in front of a non-empty block stay in front of its paths. -/
theorem Run.prepend {bs : Blocks} {b tr : List Stmt} (h : Run bs b tr) (hb : b ≠ [])
    (pre : Block) : Run bs (pre ++ b) (pre ++ tr) := by
  cases h with
  | exit hl =>
      refine .exit fun s hs => hl s ?_
      rwa [List.getLast?_append_of_ne_nil _ hb] at hs
  | ret => simpa only [← List.append_assoc] using Run.ret
  | goto ht hl hr => simpa only [← List.append_assoc] using Run.goto ht hl hr

/-- A block with no terminator falls off its end. -/
theorem Run.of_free {bs : Blocks} {b : Block} (h : ∀ s ∈ b, s.isTerminator = false) :
    Run bs b b :=
  .exit fun s hs => h s (List.mem_of_getLast?_eq_some hs)

/-- A block with no terminator has one run: falling off its end. -/
theorem Run.eq_of_free {bs : Blocks} {b tr : List Stmt} (h : Run bs b tr)
    (hb : ∀ s ∈ b, s.isTerminator = false) : tr = b := by
  cases h with
  | exit | ret => rfl
  | goto hm =>
      have := hb _ (List.mem_append_right _ (List.mem_singleton_self _))
      simp [Stmt.isTerminator_of_mem_targets hm] at this

/-- A block that ends in a `return` has one run: to the `return`. -/
theorem Run.eq_of_ret {bs : Blocks} {pre : Block} {v : String} {tr : List Stmt}
    (h : Run bs (pre ++ [.ret v]) tr) : tr = pre ++ [.ret v] := by
  generalize hc : pre ++ [Stmt.ret v] = c at h
  cases h with
  | exit hx =>
      subst hc
      simp [Stmt.isTerminator] at hx
  | ret =>
      simp only [← List.concat_eq_append, List.concat_inj] at hc
      obtain ⟨rfl, h⟩ := hc
      cases h
      rfl
  | goto hm =>
      simp only [← List.concat_eq_append, List.concat_inj] at hc
      obtain ⟨-, rfl⟩ := hc
      simp [Stmt.targets] at hm

/-- With distinct labels, the block a label holds is the one `lookup` finds. -/
theorem lookup_of_mem {bs : Blocks} (hnd : (blockLabels bs).Nodup) {l : Nat} {b : Block}
    (h : (l, b) ∈ bs) : bs.lookup l = some b := by
  induction bs with
  | nil => simp at h
  | cons p bs ih =>
      obtain ⟨k, c⟩ := p
      simp only [blockLabels, List.map_cons, List.nodup_cons] at hnd
      rcases List.mem_cons.1 h with h | h
      · simp_all
      · have hne : l ≠ k := fun hk => hnd.1 (hk ▸ List.mem_map_of_mem Prod.fst h)
        simpa [List.lookup_cons, beq_false_of_ne hne] using ih hnd.2 h

/-! ### Renaming labels -/

/-- The blocks with every label, and the targets of every block's last statement, renamed by
`σ`. -/
def relabel (σ : Nat → Nat) (bs : Blocks) : Blocks :=
  bs.map fun p => (σ p.1, mapLast (Stmt.mapTargets σ) p.2)

@[simp] theorem blockLabels_relabel (σ : Nat → Nat) (bs : Blocks) :
    blockLabels (relabel σ bs) = (blockLabels bs).map σ := by
  simp [relabel, blockLabels]

theorem lookup_relabel {σ : Nat → Nat} {bs : Blocks} {l : Nat}
    (hinj : ∀ a ∈ blockLabels bs, σ a = σ l → a = l) :
    (relabel σ bs).lookup (σ l) = (bs.lookup l).map (mapLast (Stmt.mapTargets σ)) := by
  induction bs with
  | nil => rfl
  | cons p bs ih =>
      obtain ⟨k, c⟩ := p
      have ih' := ih fun a ha => hinj a (List.mem_cons_of_mem _ ha)
      by_cases h : l = k
      · subst h
        simp [relabel]
      · have hσ : (σ l == σ k) = false :=
          beq_false_of_ne fun h' => h (hinj k (List.mem_cons_self _ _) h'.symm).symm
        simp only [relabel, List.map_cons, List.lookup_cons, hσ, beq_false_of_ne h] at ih' ⊢
        exact ih'

section Relabel

variable {σ : Nat → Nat} {D : Set Nat} {bs : Blocks}

/-- **Renaming keeps the runs**, when it is injective on a set holding every label and every
target. -/
theorem run_relabel_iff (hinj : Set.InjOn σ D) (hl : ∀ a ∈ blockLabels bs, a ∈ D)
    (ht : ∀ p ∈ bs, ∀ m ∈ lastTargets p.2, m ∈ D) {b : Block} (hb : ∀ m ∈ lastTargets b, m ∈ D)
    (tr : List Stmt) : Run (relabel σ bs) (mapLast (Stmt.mapTargets σ) b) tr ↔ Run bs b tr := by
  have hlook : ∀ l ∈ D, (relabel σ bs).lookup (σ l) =
      (bs.lookup l).map (mapLast (Stmt.mapTargets σ)) := fun l hlD =>
    lookup_relabel fun a ha h => hinj (hl a ha) hlD h
  constructor
  · intro h
    generalize hc : mapLast (Stmt.mapTargets σ) b = c at h
    induction h generalizing b with
    | exit hx =>
        rw [← hc, getLast?_mapLast] at hx
        have hx' : ∀ s ∈ b.getLast?, s.isTerminator = false := fun s hs => by
          simpa using hx _ (Option.mem_map_of_mem _ hs)
        rw [← hc, mapLast_mapTargets_of_getLast? hx']
        exact .exit hx'
    | ret =>
        obtain ⟨t, rfl, ht'⟩ := mapLast_eq_append hc
        rw [Stmt.mapTargets_eq_ret ht']
        exact .ret
    | goto hm hlk _ ih =>
        obtain ⟨t, rfl, rfl⟩ := mapLast_eq_append hc
        rw [Stmt.targets_mapTargets, List.mem_map] at hm
        obtain ⟨l, hlt, rfl⟩ := hm
        have hlD : l ∈ D := hb l (by simpa using hlt)
        rw [hlook l hlD, Option.map_eq_some'] at hlk
        obtain ⟨b₁, hb₁, rfl⟩ := hlk
        exact .goto hlt hb₁ (ih (ht _ (mem_of_lookup hb₁)) rfl)
  · intro h
    clear hb
    induction h with
    | exit hx =>
        rw [mapLast_mapTargets_of_getLast? hx]
        exact .exit hx
    | ret =>
        rw [mapLast_append_singleton]
        exact .ret
    | @goto pre t l b₁ tr hm hlk _ ih =>
        rw [mapLast_append_singleton]
        refine .goto (by simpa using ⟨l, hm, rfl⟩) ?_ ih
        rw [hlook l (hl l (mem_blockLabels_of_lookup hlk)), hlk]
        rfl

/-- **Renaming keeps the paths.** -/
theorem path_relabel_iff (hinj : Set.InjOn σ D) (hl : ∀ a ∈ blockLabels bs, a ∈ D)
    (ht : ∀ p ∈ bs, ∀ m ∈ lastTargets p.2, m ∈ D) {l : Nat} (hlD : l ∈ D) (tr : List Stmt) :
    Path (relabel σ bs) (σ l) tr ↔ Path bs l tr := by
  rw [Path, Path, lookup_relabel fun a ha h => hinj (hl a ha) hlD h]
  constructor
  · rintro ⟨_, hb', hr⟩
    obtain ⟨b, hb, rfl⟩ := Option.map_eq_some'.1 hb'
    exact ⟨b, hb, (run_relabel_iff hinj hl ht (ht _ (mem_of_lookup hb)) tr).1 hr⟩
  · rintro ⟨b, hb, hr⟩
    exact ⟨_, by rw [hb]; rfl, (run_relabel_iff hinj hl ht (ht _ (mem_of_lookup hb)) tr).2 hr⟩

end Relabel

/-! ### Well-formed bodies -/

/-- Whether a block ends in exactly one terminator, its last statement, whose targets are among
`ls`. -/
def isTerminated (ls : List Nat) (b : Block) : Bool :=
  match b.getLast? with
  | none => false
  | some t => t.isTerminator && b.dropLast.all (fun s => !s.isTerminator) && t.targets.all (· ∈ ls)

theorem isTerminated_iff {ls : List Nat} {b : Block} :
    isTerminated ls b = true ↔ ∃ pre t, b = pre ++ [t] ∧ (∀ s ∈ pre, s.isTerminator = false) ∧
      t.isTerminator = true ∧ ∀ m ∈ t.targets, m ∈ ls := by
  rcases List.eq_nil_or_concat b with rfl | ⟨pre, t, rfl⟩
  · simp [isTerminated]
  · rw [List.concat_eq_append]
    constructor
    · intro h
      simp only [isTerminated, List.getLast?_concat, List.dropLast_concat, Bool.and_eq_true,
        List.all_eq_true, Bool.not_eq_true', decide_eq_true_eq] at h
      exact ⟨pre, t, rfl, h.1.2, h.1.1, h.2⟩
    · rintro ⟨pre', t', h, hpre, ht, hts⟩
      obtain ⟨rfl, h'⟩ := List.append_inj' h rfl
      obtain rfl := List.singleton_inj.1 h'
      simp only [isTerminated, List.getLast?_concat, List.dropLast_concat, Bool.and_eq_true,
        List.all_eq_true, Bool.not_eq_true', decide_eq_true_eq]
      exact ⟨⟨ht, hpre⟩, hts⟩

/-- Whether a block ends in exactly one jump or branch, to labels among `ls`. -/
def goesWithin (ls : List Nat) (b : Block) : Bool :=
  isTerminated ls b && !(lastTargets b).isEmpty

theorem goesWithin_iff {ls : List Nat} {b : Block} :
    goesWithin ls b = true ↔ ∃ pre t, b = pre ++ [t] ∧ (∀ s ∈ pre, s.isTerminator = false) ∧
      t.targets ≠ [] ∧ ∀ m ∈ t.targets, m ∈ ls := by
  rw [goesWithin, Bool.and_eq_true, isTerminated_iff]
  constructor
  · rintro ⟨⟨pre, t, rfl, hpre, -, hts⟩, hne⟩
    exact ⟨pre, t, rfl, hpre, by simpa using hne, hts⟩
  · rintro ⟨pre, t, rfl, hpre, hne, hts⟩
    obtain ⟨m, hm⟩ := List.exists_mem_of_ne_nil _ hne
    exact ⟨⟨pre, t, rfl, hpre, Stmt.isTerminator_of_mem_targets hm, hts⟩, by simpa using hne⟩

/-- A function body whose labels are distinct and whose every block ends in exactly one
terminator, with every target a label of the body. -/
structure WellFormed (bs : Blocks) : Prop where
  nodup : (blockLabels bs).Nodup
  terminated : ∀ p ∈ bs, isTerminated (blockLabels bs) p.2 = true

theorem WellFormed.block {bs : Blocks} (hw : WellFormed bs) {l : Nat} {b : Block}
    (h : bs.lookup l = some b) : ∃ pre t, b = pre ++ [t] ∧ (∀ s ∈ pre, s.isTerminator = false) ∧
      t.isTerminator = true ∧ ∀ m ∈ t.targets, m ∈ blockLabels bs :=
  isTerminated_iff.1 (hw.terminated _ (mem_of_lookup h))

/-- `isinstance(inst, ir.Assign) and inst.target.name == x`. -/
def Stmt.assigns (x : String) : Stmt → Bool
  | .assign t _ => t == x
  | _ => false

theorem Stmt.isTerminator_of_assigns {x : String} {s : Stmt} (h : s.assigns x = true) :
    s.isTerminator = false := by
  cases s <;> simp_all [Stmt.assigns, Stmt.isTerminator]

/-! ### Paths with the sentinel replaced -/

/-- `Replaced isSent P tr₀ tr`: `tr` is `tr₀` with each statement that `isSent` picks replaced by a
trace that `P` allows. -/
inductive Replaced (isSent : Stmt → Bool) (P : List Stmt → Prop) : List Stmt → List Stmt → Prop
  | nil : Replaced isSent P [] []
  | keep {s : Stmt} {xs ys : List Stmt} : isSent s = false → Replaced isSent P xs ys →
      Replaced isSent P (s :: xs) (s :: ys)
  | splice {s : Stmt} {xs ys p : List Stmt} : isSent s = true → P p → Replaced isSent P xs ys →
      Replaced isSent P (s :: xs) (p ++ ys)

namespace Replaced

variable {isSent : Stmt → Bool} {P : List Stmt → Prop}

theorem append_left {pre xs ys : List Stmt} (hpre : ∀ s ∈ pre, isSent s = false)
    (h : Replaced isSent P xs ys) : Replaced isSent P (pre ++ xs) (pre ++ ys) := by
  induction pre with
  | nil => exact h
  | cons s pre ih =>
      simp only [List.mem_cons, forall_eq_or_imp] at hpre
      exact .keep hpre.1 (ih hpre.2)

theorem of_free {xs : List Stmt} (h : ∀ s ∈ xs, isSent s = false) : Replaced isSent P xs xs := by
  simpa using append_left h (.nil : Replaced isSent P [] [])

theorem of_append_left {pre xs zs : List Stmt} (hpre : ∀ s ∈ pre, isSent s = false)
    (h : Replaced isSent P (pre ++ xs) zs) : ∃ ys, zs = pre ++ ys ∧ Replaced isSent P xs ys := by
  induction pre generalizing zs with
  | nil => exact ⟨zs, rfl, h⟩
  | cons s pre ih =>
      simp only [List.mem_cons, forall_eq_or_imp] at hpre
      cases h with
      | keep _ h =>
          obtain ⟨ys, rfl, hy⟩ := ih hpre.2 h
          exact ⟨ys, rfl, hy⟩
      | splice hs => simp [hpre.1] at hs

theorem eq_of_free {xs zs : List Stmt} (hx : ∀ s ∈ xs, isSent s = false)
    (h : Replaced isSent P xs zs) : zs = xs := by
  obtain ⟨ys, rfl, hy⟩ := @of_append_left isSent P xs [] zs hx (by rwa [List.append_nil])
  cases hy
  exact List.append_nil xs

theorem of_append_sentinel {pre xs zs : List Stmt} {s : Stmt}
    (hpre : ∀ s ∈ pre, isSent s = false) (hs : isSent s = true)
    (h : Replaced isSent P (pre ++ s :: xs) zs) :
    ∃ p ys, zs = pre ++ (p ++ ys) ∧ P p ∧ Replaced isSent P xs ys := by
  obtain ⟨ys, rfl, hy⟩ := of_append_left hpre h
  cases hy with
  | keep hs' => simp [hs] at hs'
  | splice _ hp hy => exact ⟨_, _, rfl, hp, hy⟩

theorem cons_inv {s : Stmt} {xs zs : List Stmt} (h : Replaced isSent P (s :: xs) zs) :
    (isSent s = false ∧ ∃ ys, zs = s :: ys ∧ Replaced isSent P xs ys) ∨
      (isSent s = true ∧ ∃ p ys, zs = p ++ ys ∧ P p ∧ Replaced isSent P xs ys) := by
  cases h with
  | keep hs h => exact .inl ⟨hs, _, rfl, h⟩
  | splice hs hp h => exact .inr ⟨hs, _, _, rfl, hp, h⟩

theorem mono {Q : List Stmt → Prop} (hPQ : ∀ p, P p → Q p) {xs ys : List Stmt}
    (h : Replaced isSent P xs ys) : Replaced isSent Q xs ys := by
  induction h with
  | nil => exact .nil
  | keep hs _ ih => exact .keep hs ih
  | splice hs hp _ ih => exact .splice hs (hPQ _ hp) ih

end Replaced

/-! ### The shape of a spliced body -/

/-- What the splice makes of a stub `S` whose block `L` assigns the sentinel `x` once — the
statements `A`, the assignment `a`, the statements `Bpre` and the terminator `tB` — and of a loop
body `H`, whose entry is `e` and whose exit `xl` holds the block `bx` with no terminator: the
blocks `R`, where `L` holds `A` and a jump to the body, the exit jumps to the fresh label `n`, and
`n` holds the rest of the sentinel's block. -/
structure SpliceShape (x : String) (S H R : Blocks) (L : Nat) (A : Block) (a : Stmt)
    (Bpre : Block) (tB : Stmt) (e xl : Nat) (bx : Block) (n : Nat) : Prop where
  stub : WellFormed S
  lookupStub : S.lookup L = some (A ++ a :: Bpre ++ [tB])
  sentinel : a.assigns x = true
  freePre : ∀ s ∈ A, s.assigns x = false
  freePost : ∀ s ∈ Bpre ++ [tB], s.assigns x = false
  freeOther : ∀ l b, l ≠ L → S.lookup l = some b → ∀ s ∈ b, s.assigns x = false
  bodyNodup : (blockLabels H).Nodup
  entry : e ∈ blockLabels H
  lookupExit : H.lookup xl = some bx
  exitFree : ∀ s ∈ bx, s.isTerminator = false
  inner : ∀ l b, l ≠ xl → H.lookup l = some b → goesWithin (blockLabels H) b = true
  disjoint : ∀ l ∈ blockLabels H, l ∉ blockLabels S
  freshStub : n ∉ blockLabels S
  freshBody : n ∉ blockLabels H
  labels : (blockLabels R).Perm (blockLabels S ++ blockLabels H ++ [n])
  lookupR : ∀ l ∈ blockLabels S, l ≠ L → R.lookup l = S.lookup l
  lookupRL : R.lookup L = some (A ++ [.jump e])
  lookupRH : ∀ l ∈ blockLabels H, l ≠ xl → R.lookup l = H.lookup l
  lookupRX : R.lookup xl = some (bx ++ [.jump n])
  lookupRN : R.lookup n = some (Bpre ++ [tB])

namespace SpliceShape

variable {x : String} {S H R : Blocks} {L : Nat} {A : Block} {a : Stmt} {Bpre : Block} {tB : Stmt}
  {e xl : Nat} {bx : Block} {n : Nat}

/-- The sentinel's block: no terminator before its last statement `tB`, whose targets are labels
of the stub. -/
theorem sentinelBlock (sh : SpliceShape x S H R L A a Bpre tB e xl bx n) :
    (∀ s ∈ A, s.isTerminator = false) ∧ (∀ s ∈ Bpre, s.isTerminator = false) ∧
      tB.isTerminator = true ∧ ∀ m ∈ tB.targets, m ∈ blockLabels S := by
  obtain ⟨pre, t, h, hpre, ht, hts⟩ := sh.stub.block sh.lookupStub
  obtain ⟨rfl, h'⟩ := List.append_inj' h rfl
  obtain rfl := List.singleton_inj.1 h'
  simp only [List.mem_append, List.mem_cons] at hpre
  exact ⟨fun s hs => hpre s (.inl hs), fun s hs => hpre s (.inr (.inr hs)), ht, hts⟩

theorem bodyBlock (sh : SpliceShape x S H R L A a Bpre tB e xl bx n) {l : Nat} {b : Block}
    (hne : l ≠ xl) (h : H.lookup l = some b) :
    ∃ pre t, b = pre ++ [t] ∧ (∀ s ∈ pre, s.isTerminator = false) ∧ t.targets ≠ [] ∧
      ∀ m ∈ t.targets, m ∈ blockLabels H :=
  goesWithin_iff.1 (sh.inner l b hne h)

theorem lookup_stub_cases (sh : SpliceShape x S H R L A a Bpre tB e xl bx n) {l : Nat}
    {c : Block} (hl : l ∈ blockLabels S) (h : R.lookup l = some c) :
    (l = L ∧ c = A ++ [.jump e]) ∨ (l ≠ L ∧ S.lookup l = some c) := by
  by_cases hL : l = L
  · subst hL
    rw [sh.lookupRL, Option.some_inj] at h
    exact .inl ⟨rfl, h.symm⟩
  · rw [sh.lookupR l hl hL] at h
    exact .inr ⟨hL, h⟩

theorem lookup_body_cases (sh : SpliceShape x S H R L A a Bpre tB e xl bx n) {l : Nat}
    {c : Block} (hl : l ∈ blockLabels H) (h : R.lookup l = some c) :
    (l = xl ∧ c = bx ++ [.jump n]) ∨ (l ≠ xl ∧ H.lookup l = some c) := by
  by_cases hx : l = xl
  · subst hx
    rw [sh.lookupRX, Option.some_inj] at h
    exact .inl ⟨rfl, h.symm⟩
  · rw [sh.lookupRH l hl hx] at h
    exact .inr ⟨hx, h⟩

/-- The block `R` holds at a label of the stub. -/
theorem lookup_of_stub (sh : SpliceShape x S H R L A a Bpre tB e xl bx n) {l : Nat} {b : Block}
    (h : S.lookup l = some b) :
    (l = L ∧ b = A ++ a :: Bpre ++ [tB] ∧ R.lookup l = some (A ++ [.jump e])) ∨
      (l ≠ L ∧ R.lookup l = some b) := by
  by_cases hL : l = L
  · subst hL
    rw [sh.lookupStub, Option.some_inj] at h
    exact .inl ⟨rfl, h.symm, sh.lookupRL⟩
  · exact .inr ⟨hL, (sh.lookupR l (mem_blockLabels_of_lookup h) hL).trans h⟩

/-- The block `R` holds at a label of the body. -/
theorem lookup_of_body (sh : SpliceShape x S H R L A a Bpre tB e xl bx n) {l : Nat} {b : Block}
    (h : H.lookup l = some b) :
    (l = xl ∧ b = bx ∧ R.lookup l = some (bx ++ [.jump n])) ∨ (l ≠ xl ∧ R.lookup l = some b) := by
  by_cases hx : l = xl
  · subst hx
    rw [sh.lookupExit, Option.some_inj] at h
    exact .inl ⟨rfl, h.symm, sh.lookupRX⟩
  · exact .inr ⟨hx, (sh.lookupRH l (mem_blockLabels_of_lookup h) hx).trans h⟩

/-- **A run of the spliced body, read back.**  From a label of the stub it is a run of the stub
with the sentinel replaced; from the rest of the sentinel's block, likewise; from a label of the
body, a run of the body to its exit followed by a run from the rest of the sentinel's block. -/
theorem run_sound (sh : SpliceShape x S H R L A a Bpre tB e xl bx n) {c tr : List Stmt}
    (h : Run R c tr) :
    (∀ l ∈ blockLabels S, R.lookup l = some c →
      ∃ tr₀, Path S l tr₀ ∧ Replaced (Stmt.assigns x) (Path H e) tr₀ tr) ∧
    (c = Bpre ++ [tB] →
      ∃ tr₀, Run S (Bpre ++ [tB]) tr₀ ∧ Replaced (Stmt.assigns x) (Path H e) tr₀ tr) ∧
    (∀ l ∈ blockLabels H, R.lookup l = some c → ∃ p q, Path H l p ∧ tr = p ++ q ∧
      ∃ q₀, Run S (Bpre ++ [tB]) q₀ ∧ Replaced (Stmt.assigns x) (Path H e) q₀ q) := by
  obtain ⟨-, -, htB, htBs⟩ := sh.sentinelBlock
  induction h with
  | @exit c hx =>
      refine ⟨fun l hl hc => ?_, fun hc => ?_, fun l hl hc => ?_⟩
      · rcases sh.lookup_stub_cases hl hc with ⟨-, rfl⟩ | ⟨-, hS⟩
        · simp [Stmt.isTerminator] at hx
        · obtain ⟨pre, t, rfl, -, ht, -⟩ := sh.stub.block hS
          simp_all
      · subst hc
        simp_all
      · rcases sh.lookup_body_cases hl hc with ⟨-, rfl⟩ | ⟨hne, hH⟩
        · simp [Stmt.isTerminator] at hx
        · obtain ⟨pre, t, rfl, -, ht, -⟩ := sh.bodyBlock hne hH
          obtain ⟨m, hm⟩ := List.exists_mem_of_ne_nil _ ht
          simp [Stmt.isTerminator_of_mem_targets hm] at hx
  | @ret pre v =>
      refine ⟨fun l hl hc => ?_, fun hc => ?_, fun l hl hc => ?_⟩
      · rcases sh.lookup_stub_cases hl hc with ⟨-, h⟩ | ⟨hL, hS⟩
        · simp only [← List.concat_eq_append, List.concat_inj] at h
          simp at h
        · exact ⟨_, ⟨_, hS, .ret⟩, .of_free (sh.freeOther l _ hL hS)⟩
      · exact ⟨_, hc ▸ .ret, .of_free (hc ▸ sh.freePost)⟩
      · rcases sh.lookup_body_cases hl hc with ⟨-, h⟩ | ⟨hne, hH⟩
        · simp only [← List.concat_eq_append, List.concat_inj] at h
          simp at h
        · obtain ⟨pre', t, h, -, ht, -⟩ := sh.bodyBlock hne hH
          simp only [← List.concat_eq_append, List.concat_inj] at h
          simp [← h.2, Stmt.targets] at ht
  | @goto pre t l c₁ tr₁ hm hlk _ ih =>
      obtain ⟨ihS, ihB, ihH⟩ := ih
      refine ⟨fun l' hl' hc => ?_, fun hc => ?_, fun l' hl' hc => ?_⟩
      · rcases sh.lookup_stub_cases hl' hc with ⟨rfl, h⟩ | ⟨hL, hS⟩
        · simp only [← List.concat_eq_append, List.concat_inj] at h
          obtain ⟨rfl, rfl⟩ := h
          obtain rfl : l = e := by simpa [Stmt.targets] using hm
          obtain ⟨p, q, hp, rfl, q₀, hq₀, hrq⟩ := ihH l sh.entry hlk
          refine ⟨pre ++ a :: q₀, ⟨_, sh.lookupStub, ?_⟩, .append_left sh.freePre
            (.splice sh.sentinel hp hrq)⟩
          simpa using hq₀.prepend (by simp) (pre ++ [a])
        · obtain ⟨pre', t', h, -, -, hts⟩ := sh.stub.block hS
          simp only [← List.concat_eq_append, List.concat_inj] at h
          obtain ⟨rfl, rfl⟩ := h
          obtain ⟨tr₀, ⟨b₁, hb₁, hr₀⟩, hrep⟩ := ihS l (hts l hm) hlk
          exact ⟨pre ++ tr₀, ⟨_, hS, .goto hm hb₁ hr₀⟩,
            .append_left (fun s hs => sh.freeOther l' _ hL hS s (by simp [hs])) hrep⟩
      · simp only [← List.concat_eq_append, List.concat_inj] at hc
        obtain ⟨rfl, rfl⟩ := hc
        obtain ⟨tr₀, ⟨b₁, hb₁, hr₀⟩, hrep⟩ := ihS l (htBs l hm) hlk
        exact ⟨pre ++ tr₀, .goto hm hb₁ hr₀,
          .append_left (fun s hs => sh.freePost s (by simp [hs])) hrep⟩
      · rcases sh.lookup_body_cases hl' hc with ⟨rfl, h⟩ | ⟨hne, hH⟩
        · simp only [← List.concat_eq_append, List.concat_inj] at h
          obtain ⟨rfl, rfl⟩ := h
          obtain rfl : l = n := by simpa [Stmt.targets] using hm
          rw [sh.lookupRN, Option.some_inj] at hlk
          obtain ⟨q₀, hq₀, hrq⟩ := ihB hlk.symm
          exact ⟨pre, tr₁, ⟨_, sh.lookupExit, .of_free sh.exitFree⟩, rfl, q₀, hq₀, hrq⟩
        · obtain ⟨pre', t', h, -, -, hts⟩ := sh.bodyBlock hne hH
          simp only [← List.concat_eq_append, List.concat_inj] at h
          obtain ⟨rfl, rfl⟩ := h
          obtain ⟨p, q, ⟨b₁, hb₁, hp⟩, rfl, hq⟩ := ihH l (hts l hm) hlk
          exact ⟨pre ++ p, q, ⟨_, hH, .goto hm hb₁ hp⟩, (List.append_assoc ..).symm, hq⟩

/-- A run of the body to its exit, followed by a run from the rest of the sentinel's block, is a
run of the spliced body. -/
theorem run_body_complete (sh : SpliceShape x S H R L A a Bpre tB e xl bx n) {b p : List Stmt}
    (h : Run H b p) {l : Nat} (hb : H.lookup l = some b) {q : List Stmt}
    (hq : Run R (Bpre ++ [tB]) q) : ∃ c, R.lookup l = some c ∧ Run R c (p ++ q) := by
  induction h generalizing l with
  | exit hx =>
      rcases sh.lookup_of_body hb with ⟨-, rfl, hR⟩ | ⟨hne, -⟩
      · exact ⟨_, hR, .goto (by simp [Stmt.targets]) sh.lookupRN hq⟩
      · obtain ⟨pre, t, rfl, -, ht, -⟩ := sh.bodyBlock hne hb
        obtain ⟨m, hm⟩ := List.exists_mem_of_ne_nil _ ht
        simp [Stmt.isTerminator_of_mem_targets hm] at hx
  | ret =>
      rcases sh.lookup_of_body hb with ⟨-, h, -⟩ | ⟨hne, -⟩
      · have := sh.exitFree _ (h ▸ List.mem_append_right _ (List.mem_singleton_self _))
        simp [Stmt.isTerminator] at this
      · obtain ⟨pre', t, h, -, ht, -⟩ := sh.bodyBlock hne hb
        simp only [← List.concat_eq_append, List.concat_inj] at h
        simp [← h.2, Stmt.targets] at ht
  | goto hm hlk _ ih =>
      rcases sh.lookup_of_body hb with ⟨-, h, -⟩ | ⟨-, hR⟩
      · have := sh.exitFree _ (h ▸ List.mem_append_right _ (List.mem_singleton_self _))
        simp [Stmt.isTerminator_of_mem_targets hm] at this
      · obtain ⟨c₁, hc₁, hr₁⟩ := ih hlk
        exact ⟨_, hR, by rw [List.append_assoc]; exact .goto hm hc₁ hr₁⟩

/-- A run of the stub with the sentinel replaced by a path of the body is a run of the spliced
body. -/
theorem run_stub_complete (sh : SpliceShape x S H R L A a Bpre tB e xl bx n) {b tr₀ : List Stmt}
    (h : Run S b tr₀) {l : Nat} (hb : S.lookup l = some b) {tr : List Stmt}
    (hrep : Replaced (Stmt.assigns x) (Path H e) tr₀ tr) : Path R l tr := by
  induction h generalizing l tr with
  | exit hx =>
      obtain ⟨pre, t, rfl, -, ht, -⟩ := sh.stub.block hb
      simp [ht] at hx
  | @ret pre v =>
      rcases sh.lookup_of_stub hb with ⟨-, h, hR⟩ | ⟨hL, hR⟩
      · simp only [← List.concat_eq_append, List.concat_inj] at h
        obtain ⟨rfl, rfl⟩ := h
        obtain ⟨p, ys, rfl, ⟨b₁, hlk₁, hp⟩, hys⟩ :=
          Replaced.of_append_sentinel sh.freePre sh.sentinel (by simpa using hrep)
        rw [hys.eq_of_free sh.freePost]
        obtain ⟨c₁, hc₁, hr₁⟩ := sh.run_body_complete hp hlk₁ .ret
        exact ⟨_, hR, .goto (by simp [Stmt.targets]) hc₁ hr₁⟩
      · rw [hrep.eq_of_free (sh.freeOther l _ hL hb)]
        exact ⟨_, hR, .ret⟩
  | @goto pre t l₁ b₁ tr₁ hm hlk _ ih =>
      rcases sh.lookup_of_stub hb with ⟨-, h, hR⟩ | ⟨hL, hR⟩
      · simp only [← List.concat_eq_append, List.concat_inj] at h
        obtain ⟨rfl, rfl⟩ := h
        obtain ⟨p, ys, rfl, ⟨b₂, hlk₂, hp⟩, hys⟩ :=
          Replaced.of_append_sentinel sh.freePre sh.sentinel (by simpa using hrep)
        obtain ⟨ys', rfl, hys'⟩ :=
          hys.of_append_left fun s hs => sh.freePost s (List.mem_append_left _ hs)
        obtain ⟨c₁, hc₁, hr₁⟩ := ih hlk hys'
        obtain ⟨c₂, hc₂, hr₂⟩ := sh.run_body_complete hp hlk₂ (.goto hm hc₁ hr₁)
        exact ⟨_, hR, .goto (by simp [Stmt.targets]) hc₂ hr₂⟩
      · obtain ⟨ys, rfl, hys⟩ :=
          hrep.of_append_left fun s hs => sh.freeOther l _ hL hb s (List.mem_append_left _ hs)
        obtain ⟨c₁, hc₁, hr₁⟩ := ih hlk hys
        exact ⟨_, hR, .goto hm hc₁ hr₁⟩

/-- **The paths of the spliced body**: from every label of the stub, they are the stub's paths
with the sentinel assignment replaced by a path of the body from its entry. -/
theorem path_iff (sh : SpliceShape x S H R L A a Bpre tB e xl bx n) {l : Nat}
    (hl : l ∈ blockLabels S) (tr : List Stmt) :
    Path R l tr ↔ ∃ tr₀, Path S l tr₀ ∧ Replaced (Stmt.assigns x) (Path H e) tr₀ tr := by
  constructor
  · rintro ⟨c, hc, hr⟩
    exact (sh.run_sound hr).1 l hl hc
  · rintro ⟨tr₀, ⟨b, hb, hr⟩, hrep⟩
    exact sh.run_stub_complete hr hb hrep

/-- **The spliced body is well formed.** -/
theorem wellFormed (sh : SpliceShape x S H R L A a Bpre tB e xl bx n) : WellFormed R := by
  obtain ⟨hA, hB, htB, htBs⟩ := sh.sentinelBlock
  have hnd : (blockLabels S ++ blockLabels H ++ [n]).Nodup := by
    refine List.Nodup.append (sh.stub.nodup.append sh.bodyNodup
      fun l hS hH => sh.disjoint l hH hS) (List.nodup_singleton n) ?_
    simp only [List.disjoint_singleton, List.mem_append, not_or]
    exact ⟨sh.freshStub, sh.freshBody⟩
  have hR : ∀ m, m ∈ blockLabels S ∨ m ∈ blockLabels H ∨ m = n → m ∈ blockLabels R := by
    intro m hm
    exact sh.labels.symm.subset (by simpa [or_assoc] using hm)
  refine ⟨sh.labels.nodup_iff.2 hnd, fun p hp => ?_⟩
  have hlook := lookup_of_mem (sh.labels.nodup_iff.2 hnd) hp
  have hl : p.1 ∈ blockLabels S ∨ p.1 ∈ blockLabels H ∨ p.1 = n := by
    simpa [or_assoc] using sh.labels.subset (List.mem_map_of_mem Prod.fst hp)
  rw [isTerminated_iff]
  rcases hl with hS | hH | rfl
  · rcases sh.lookup_stub_cases hS hlook with ⟨-, h⟩ | ⟨-, h⟩
    · exact ⟨A, _, h, hA, rfl, by simpa [Stmt.targets] using hR e (.inr (.inl sh.entry))⟩
    · obtain ⟨pre, t, hb, hpre, ht, hts⟩ := sh.stub.block h
      exact ⟨pre, t, hb, hpre, ht, fun m hm => hR m (.inl (hts m hm))⟩
  · rcases sh.lookup_body_cases hH hlook with ⟨-, h⟩ | ⟨hne, h⟩
    · exact ⟨bx, _, h, sh.exitFree, rfl, by simpa [Stmt.targets] using hR n (.inr (.inr rfl))⟩
    · obtain ⟨pre, t, hb, hpre, ht, hts⟩ := sh.bodyBlock hne h
      obtain ⟨m, hm⟩ := List.exists_mem_of_ne_nil _ ht
      exact ⟨pre, t, hb, hpre, Stmt.isTerminator_of_mem_targets hm,
        fun m hm => hR m (.inr (.inl (hts m hm)))⟩
  · rw [sh.lookupRN, Option.some_inj] at hlook
    exact ⟨Bpre, tB, hlook.symm, hB, htB, fun m hm => hR m (.inl (htBs m hm))⟩

end SpliceShape

/-! ### The splice -/

/-- `blocks[k] = b` on the dict: an existing key keeps its place, a new one goes last. -/
def dictSet (bs : Blocks) (k : Nat) (b : Block) : Blocks :=
  if k ∈ blockLabels bs then bs.map fun p => (p.1, if p.1 = k then b else p.2)
  else bs ++ [(k, b)]

/-- `blocks[k].append(s)`. -/
def dictAppend (bs : Blocks) (k : Nat) (s : Stmt) : Blocks :=
  bs.map fun p => (p.1, if p.1 = k then p.2 ++ [s] else p.2)

/-- The statements of a block before and after its first assignment to `x`. -/
def splitAtAssign (x : String) : Block → Option (Block × Block)
  | [] => none
  | s :: ss =>
      if s.assigns x then some ([], ss) else (splitAtAssign x ss).map fun q => (s :: q.1, q.2)

/-- The search of `_create_gufunc_for_parfor_body` for the sentinel assignment: the first block,
in the dict's order, that assigns `x`, with its label and the statements before and after the
first such assignment. -/
def findSentinel (x : String) : Blocks → Option (Nat × Block × Block)
  | [] => none
  | (l, b) :: bs =>
      match splitAtAssign x b with
      | some (pre, post) => some (l, pre, post)
      | none => findSentinel x bs

/-- Modelled from numba's `ir_utils.add_offset_to_labels(blocks, offset)` (not under `src/`), which
adds `offset` to every label and to the targets of every block's terminator. -/
def addOffsetToLabels (bs : Blocks) (offset : Nat) : Blocks := relabel (· + offset) bs

/-- The splice of `_create_gufunc_for_parfor_body`, from the stub's blocks and the loop body, up to
`rename_labels`: the body's labels shifted above the stub's, the sentinel's block split, its first
half jumping to the body's entry, the body's exit jumping to the second half at a fresh label.
`max` or `min` of an empty dict raises.  `wrap_loop_body` and `unwrap_loop_body` add and take back
the same jump, and nothing is hoisted, so neither changes the blocks. -/
def spliceLoopBody (stub loopBody : Blocks) (sentinel : String) : Option Blocks := do
  let stubLastLabel ← (blockLabels stub).max?
  let loopBody := addOffsetToLabels loopBody (stubLastLabel + 1)
  let newLabel ← (blockLabels loopBody).max?.map (· + 1)
  match findSentinel sentinel stub with
  | none => pure stub
  | some (label, pre, post) =>
      let bodyFirstLabel ← (blockLabels loopBody).min?
      let bodyLastLabel ← (blockLabels loopBody).max?
      let bs := loopBody.foldl (fun acc p => dictSet acc p.1 p.2) stub
      let bs := dictSet (dictSet bs newLabel post) label (pre ++ [.jump bodyFirstLabel])
      pure (dictAppend bs bodyLastLabel (.jump newLabel))

/-! ### What the splice is given -/

/-- A kernel stub as the splice expects it: a well-formed body in which exactly one statement
assigns the sentinel `x`. -/
structure StubCFG (x : String) (stub : Blocks) : Prop where
  wellFormed : WellFormed stub
  once : (stub.flatMap Prod.snd).countP (Stmt.assigns x) = 1

/-- A parfor's loop body as the splice expects it: distinct labels; the block of the greatest
label is the exit and has no terminator; every other block ends in exactly one jump or branch,
to labels of the body. -/
structure LoopBodyCFG (body : Blocks) : Prop where
  nodup : (blockLabels body).Nodup
  exit : ∀ p ∈ body, (∀ q ∈ body, q.1 ≤ p.1) → ∀ s ∈ p.2, s.isTerminator = false
  inner : ∀ p ∈ body, (∃ q ∈ body, p.1 < q.1) → goesWithin (blockLabels body) p.2 = true

/-! ### Lemmas on the dict operations -/

theorem exists_lookup_of_mem {bs : Blocks} {l : Nat} (h : l ∈ blockLabels bs) :
    ∃ b, bs.lookup l = some b := by
  obtain ⟨p, hp, rfl⟩ := List.mem_map.1 h
  exact Option.isSome_iff_exists.1 (List.lookup_isSome_iff.2 ⟨p, hp, beq_self_eq_true _⟩)

theorem lookup_eq_none {bs : Blocks} {l : Nat} (h : l ∉ blockLabels bs) : bs.lookup l = none :=
  Option.eq_none_iff_forall_not_mem.2 fun _ hb => h (mem_blockLabels_of_lookup hb)

theorem lookup_map_val (f : Nat → Block → Block) (bs : Blocks) (l : Nat) :
    (bs.map fun p => (p.1, f p.1 p.2)).lookup l = (bs.lookup l).map (f l) := by
  induction bs with
  | nil => rfl
  | cons p bs ih =>
      obtain ⟨k, c⟩ := p
      by_cases h : l = k
      · subst h
        simp
      · simpa [List.lookup_cons, beq_false_of_ne h] using ih

@[simp] theorem blockLabels_map_val (f : Nat → Block → Block) (bs : Blocks) :
    blockLabels (bs.map fun p => (p.1, f p.1 p.2)) = blockLabels bs := by
  simp [blockLabels, Function.comp_def]

@[simp] theorem blockLabels_append (bs bs' : Blocks) :
    blockLabels (bs ++ bs') = blockLabels bs ++ blockLabels bs' := by
  simp [blockLabels]

theorem foldl_dictSet {body : Blocks} (hnd : (blockLabels body).Nodup) :
    ∀ {acc : Blocks}, (∀ l ∈ blockLabels body, l ∉ blockLabels acc) →
      body.foldl (fun acc p => dictSet acc p.1 p.2) acc = acc ++ body := by
  induction body with
  | nil => simp
  | cons p body ih =>
      intro acc hfresh
      simp only [blockLabels_cons, List.nodup_cons, List.mem_cons, forall_eq_or_imp] at hnd hfresh
      rw [List.foldl_cons, dictSet, if_neg hfresh.1, ih hnd.2, List.append_assoc,
        List.singleton_append]
      intro l hl
      simp only [blockLabels_append, List.mem_append, not_or]
      exact ⟨hfresh.2 l hl, by simpa using fun h : l = p.1 => hnd.1 (h ▸ hl)⟩

theorem dictSet_of_not_mem {bs : Blocks} {k : Nat} (b : Block) (h : k ∉ blockLabels bs) :
    dictSet bs k b = bs ++ [(k, b)] :=
  if_neg h

@[simp] theorem blockLabels_dictAppend (bs : Blocks) (k : Nat) (s : Stmt) :
    blockLabels (dictAppend bs k s) = blockLabels bs :=
  blockLabels_map_val (fun l b => if l = k then b ++ [s] else b) bs

theorem blockLabels_dictSet_of_mem {bs : Blocks} {k : Nat} (b : Block) (h : k ∈ blockLabels bs) :
    blockLabels (dictSet bs k b) = blockLabels bs := by
  rw [dictSet, if_pos h]
  exact blockLabels_map_val (fun l c => if l = k then b else c) bs

theorem lookup_dictAppend (bs : Blocks) (k : Nat) (s : Stmt) (l : Nat) :
    (dictAppend bs k s).lookup l = (bs.lookup l).map fun b => if l = k then b ++ [s] else b :=
  lookup_map_val (fun l b => if l = k then b ++ [s] else b) bs l

theorem lookup_dictSet_of_mem {bs : Blocks} {k : Nat} (b : Block) (h : k ∈ blockLabels bs)
    (l : Nat) : (dictSet bs k b).lookup l = (bs.lookup l).map fun b' => if l = k then b else b' := by
  rw [dictSet, if_pos h]
  exact lookup_map_val (fun l c => if l = k then b else c) bs l

/-! ### Wrapping the loop body for hoisting -/

/-- `wrap_loop_body(loop_body)`: a jump from the loop body's last block to its first.  The dict
copy is shallow, so the jump is appended to `loop_body`'s own last block as well, and the body
this returns is also what `loop_body` holds after the call.  `min` or `max` of an empty dict
raises. -/
def wrapLoopBody (loopBody : Blocks) : Option Blocks := do
  let firstLabel ← (blockLabels loopBody).min?
  let lastLabel ← (blockLabels loopBody).max?
  pure (dictAppend loopBody lastLabel (.jump firstLabel))

/-- `unwrap_loop_body(loop_body)`: the last statement of the last block dropped. -/
def unwrapLoopBody (loopBody : Blocks) : Option Blocks :=
  (blockLabels loopBody).max?.map fun lastLabel =>
    loopBody.map fun p => (p.1, if p.1 = lastLabel then p.2.dropLast else p.2)

theorem findSetitemsBody_dictAppend_jump (bs : Blocks) (k l : Nat) :
    findSetitemsBody (dictAppend bs k (.jump l)) = findSetitemsBody bs := by
  induction bs with
  | nil => rfl
  | cons p bs ih =>
    simp only [dictAppend, List.map_cons, findSetitemsBody] at ih ⊢
    rw [ih]
    split_ifs <;> simp [findSetitemsStmt, findSetitemsBlock]

/-- **Hoisting, with nothing hoisted, changes nothing.**  `_create_gufunc_for_parfor_body` wraps
the loop body, reads the arrays it writes (`find_setitems_body`) and unwraps it again: for every
non-empty loop body those arrays are the ones the body itself writes, and the body comes back as
it was. -/
theorem unwrapLoopBody_wrapLoopBody {lb : Blocks} (h : lb ≠ []) :
    ∃ w, wrapLoopBody lb = some w ∧ findSetitemsBody w = findSetitemsBody lb ∧
      unwrapLoopBody w = some lb := by
  have hne : blockLabels lb ≠ [] := by simpa [blockLabels] using h
  obtain ⟨first, hfirst⟩ := Option.ne_none_iff_exists'.1 (mt List.min?_eq_none_iff.1 hne)
  obtain ⟨last, hlast⟩ := Option.ne_none_iff_exists'.1 (mt List.max?_eq_none_iff.1 hne)
  refine ⟨dictAppend lb last (.jump first), by simp [wrapLoopBody, hfirst, hlast],
    findSetitemsBody_dictAppend_jump lb last first, ?_⟩
  rw [unwrapLoopBody, blockLabels_dictAppend, hlast, Option.map_some', dictAppend, List.map_map]
  congr 1
  conv_rhs => rw [← List.map_id lb]
  refine List.map_congr_left fun ⟨l, b⟩ _ => ?_
  by_cases hl : l = last <;> simp [hl]

/-- A two-block loop body, `b[i] = a` then the exit, is wrapped and unwrapped back. -/
theorem unwrapLoopBody_wrapLoopBody_setItem :
    let lb : Blocks := [(0, [.setItem "b" "i" (.var "a"), .jump 1]), (1, [])]
    lb ≠ [] ∧ ∃ w, wrapLoopBody lb = some w ∧ findSetitemsBody w = findSetitemsBody lb ∧
      unwrapLoopBody w = some lb :=
  ⟨List.cons_ne_nil _ _, unwrapLoopBody_wrapLoopBody (List.cons_ne_nil _ _)⟩

/-! ### Finding the sentinel -/

theorem splitAtAssign_eq_some {x : String} :
    ∀ {b A B : Block}, splitAtAssign x b = some (A, B) → ∃ a, b = A ++ a :: B ∧ a.assigns x = true
  | [], _, _, h => by simp [splitAtAssign] at h
  | s :: ss, A, B, h => by
      unfold splitAtAssign at h
      split_ifs at h with hs
      · cases h
        exact ⟨s, rfl, hs⟩
      · obtain ⟨⟨A', B'⟩, h', hq⟩ := Option.map_eq_some'.1 h
        cases hq
        obtain ⟨a, rfl, ha⟩ := splitAtAssign_eq_some h'
        exact ⟨a, rfl, ha⟩

theorem splitAtAssign_eq_none {x : String} :
    ∀ {b : Block}, splitAtAssign x b = none → ∀ s ∈ b, s.assigns x = false
  | [], _ => by simp
  | s :: ss, h => by
      unfold splitAtAssign at h
      split_ifs at h with hs
      simp only [Option.map_eq_none'] at h
      simpa [hs] using splitAtAssign_eq_none h

theorem findSentinel_eq_some {x : String} :
    ∀ {S : Blocks} {L : Nat} {A B : Block}, findSentinel x S = some (L, A, B) →
      ∃ S₁ S₂ a, S = S₁ ++ (L, A ++ a :: B) :: S₂ ∧ a.assigns x = true
  | [], _, _, _, h => by simp [findSentinel] at h
  | (l, b) :: S, L, A, B, h => by
      unfold findSentinel at h
      split at h
      · rename_i pre post hsp
        cases h
        obtain ⟨a, rfl, ha⟩ := splitAtAssign_eq_some hsp
        exact ⟨[], S, a, rfl, ha⟩
      · obtain ⟨S₁, S₂, a, rfl, ha⟩ := findSentinel_eq_some h
        exact ⟨(l, b) :: S₁, S₂, a, rfl, ha⟩

theorem findSentinel_isSome {x : String} :
    ∀ {S : Blocks}, (S.flatMap Prod.snd).countP (Stmt.assigns x) ≠ 0 →
      ∃ L A B, findSentinel x S = some (L, A, B)
  | [], h => by simp at h
  | (l, b) :: S, h => by
      unfold findSentinel
      split
      · exact ⟨_, _, _, rfl⟩
      · rename_i hsp
        have hb := splitAtAssign_eq_none hsp
        rw [List.flatMap_cons, List.countP_append, List.countP_eq_zero.2 fun s hs => by
          simp [hb s hs]] at h
        exact findSentinel_isSome (by simpa using h)

/-! ### The shifted loop body -/

section Offset

variable {H : Blocks} {k : Nat}

@[simp] theorem blockLabels_addOffsetToLabels :
    blockLabels (addOffsetToLabels H k) = (blockLabels H).map (· + k) :=
  blockLabels_relabel _ _

theorem lookup_addOffsetToLabels (l : Nat) :
    (addOffsetToLabels H k).lookup (l + k) = (H.lookup l).map (mapLast (Stmt.mapTargets (· + k))) :=
  lookup_relabel fun _ _ h => Nat.add_right_cancel h

/-- Every block of the shifted body is the shift of a block of the body. -/
theorem lookup_addOffsetToLabels_eq_some {m : Nat} {b : Block}
    (h : (addOffsetToLabels H k).lookup m = some b) :
    ∃ l b₀, m = l + k ∧ H.lookup l = some b₀ ∧ b = mapLast (Stmt.mapTargets (· + k)) b₀ := by
  have hm := mem_blockLabels_of_lookup h
  rw [blockLabels_addOffsetToLabels, List.mem_map] at hm
  obtain ⟨l, -, rfl⟩ := hm
  rw [lookup_addOffsetToLabels] at h
  obtain ⟨b₀, hb₀, rfl⟩ := Option.map_eq_some'.1 h
  exact ⟨l, b₀, rfl, hb₀, rfl⟩

/-- **Shifting the labels keeps the paths.** -/
theorem path_addOffsetToLabels_iff (l : Nat) (tr : List Stmt) :
    Path (addOffsetToLabels H k) (l + k) tr ↔ Path H l tr :=
  @path_relabel_iff (· + k) Set.univ H (fun _ _ _ _ h => Nat.add_right_cancel h)
    (fun _ _ => trivial) (fun _ _ _ _ => trivial) l trivial tr

theorem goesWithin_addOffsetToLabels {b : Block} (h : goesWithin (blockLabels H) b = true) :
    goesWithin (blockLabels (addOffsetToLabels H k)) (mapLast (Stmt.mapTargets (· + k)) b) =
      true := by
  obtain ⟨pre, t, rfl, hpre, hne, hts⟩ := goesWithin_iff.1 h
  refine goesWithin_iff.2 ⟨pre, _, mapLast_append_singleton .., hpre, by simpa using hne, ?_⟩
  simp only [Stmt.targets_mapTargets, List.mem_map, blockLabels_addOffsetToLabels]
  rintro _ ⟨m, hm, rfl⟩
  exact ⟨m, hts m hm, rfl⟩

end Offset

theorem max?_map_add {xs : List Nat} {m : Nat} (h : xs.max? = some m) (k : Nat) :
    (xs.map (· + k)).max? = some (m + k) := by
  rw [List.max?_eq_some_iff'] at h ⊢
  exact ⟨List.mem_map_of_mem _ h.1, by simpa using fun b hb => h.2 b hb⟩

theorem min?_map_add {xs : List Nat} {m : Nat} (h : xs.min? = some m) (k : Nat) :
    (xs.map (· + k)).min? = some (m + k) := by
  rw [List.min?_eq_some_iff'] at h ⊢
  exact ⟨List.mem_map_of_mem _ h.1, by simpa using fun b hb => h.2 b hb⟩

/-! ### The splice has the shape -/

section Shape

variable {x : String} {S H : Blocks}

/-- The sentinel's block and the rest of the stub, as the search finds them. -/
theorem StubCFG.sentinel (hS : StubCFG x S) :
    ∃ L A a Bpre tB, findSentinel x S = some (L, A, Bpre ++ [tB]) ∧
      S.lookup L = some (A ++ a :: Bpre ++ [tB]) ∧ a.assigns x = true ∧
      (∀ s ∈ A, s.assigns x = false) ∧ (∀ s ∈ Bpre ++ [tB], s.assigns x = false) ∧
      ∀ l b, l ≠ L → S.lookup l = some b → ∀ s ∈ b, s.assigns x = false := by
  obtain ⟨L, A, B, hfind⟩ := @findSentinel_isSome x S (by rw [hS.once]; decide)
  obtain ⟨S₁, S₂, a, hSeq, ha⟩ := findSentinel_eq_some hfind
  have hL : S.lookup L = some (A ++ a :: B) := lookup_of_mem hS.wellFormed.nodup (by simp [hSeq])
  have hc := hS.once
  rw [hSeq] at hc
  simp only [List.flatMap_append, List.flatMap_cons, List.countP_append, List.countP_cons, ha,
    if_true] at hc
  have hfree : ∀ {xs : List Stmt}, xs.countP (Stmt.assigns x) = 0 → ∀ s ∈ xs, s.assigns x = false :=
    fun h s hs => by simpa using List.countP_eq_zero.1 h s hs
  have hS₁ : ∀ s ∈ S₁.flatMap Prod.snd, s.assigns x = false := hfree (by omega)
  have hS₂ : ∀ s ∈ S₂.flatMap Prod.snd, s.assigns x = false := hfree (by omega)
  have hA : ∀ s ∈ A, s.assigns x = false := hfree (by omega)
  have hB : ∀ s ∈ B, s.assigns x = false := hfree (by omega)
  obtain ⟨pre, t, hb, -, ht, -⟩ := hS.wellFormed.block hL
  rcases List.eq_nil_or_concat B with rfl | ⟨Bpre, tB, rfl⟩
  · simp only [← List.concat_eq_append, List.concat_inj] at hb
    rw [← hb.2, Stmt.isTerminator_of_assigns ha] at ht
    cases ht
  simp only [List.concat_eq_append] at hfind hL hB hSeq
  refine ⟨L, A, a, Bpre, tB, hfind, by simpa using hL, ha, hA, hB, fun l b hne hb s hs => ?_⟩
  have hmem := mem_of_lookup hb
  rw [hSeq, List.mem_append, List.mem_cons] at hmem
  rcases hmem with h | h | h
  · exact hS₁ s (List.mem_flatMap.2 ⟨_, h, hs⟩)
  · exact absurd (congrArg Prod.fst h) hne
  · exact hS₂ s (List.mem_flatMap.2 ⟨_, h, hs⟩)

theorem LoopBodyCFG.exitBlock (hH : LoopBodyCFG H) {xl : Nat}
    (hxl : (blockLabels H).max? = some xl) :
    ∃ bx, H.lookup xl = some bx ∧ ∀ s ∈ bx, s.isTerminator = false := by
  obtain ⟨hmem, hle⟩ := List.max?_eq_some_iff'.1 hxl
  obtain ⟨⟨_, bx⟩, hp, rfl⟩ := List.mem_map.1 hmem
  exact ⟨bx, lookup_of_mem hH.nodup hp,
    hH.exit _ hp fun q hq => hle q.1 (List.mem_map_of_mem _ hq)⟩

theorem LoopBodyCFG.innerBlock (hH : LoopBodyCFG H) {xl : Nat}
    (hxl : (blockLabels H).max? = some xl) {l : Nat} {b : Block} (hne : l ≠ xl)
    (h : H.lookup l = some b) : goesWithin (blockLabels H) b = true := by
  obtain ⟨hmem, hle⟩ := List.max?_eq_some_iff'.1 hxl
  obtain ⟨q, hq, rfl⟩ := List.mem_map.1 hmem
  have := hle l (mem_blockLabels_of_lookup h)
  exact hH.inner _ (mem_of_lookup h) ⟨q, hq, by simp only; omega⟩

/-- **The splice has the shape** of `SpliceShape`, with the body's labels shifted by one more
than the stub's greatest label and the fresh label one more than the shifted body's greatest. -/
theorem spliceLoopBody_shape (hS : StubCFG x S) (hH : LoopBodyCFG H) {m e xl : Nat}
    (hm : (blockLabels S).max? = some m) (he : (blockLabels H).min? = some e)
    (hxl : (blockLabels H).max? = some xl) :
    ∃ R L A a Bpre tB bx, spliceLoopBody S H x = some R ∧ H.lookup xl = some bx ∧
      SpliceShape x S (addOffsetToLabels H (m + 1)) R L A a Bpre tB (e + (m + 1))
        (xl + (m + 1)) bx (xl + (m + 1) + 1) := by
  obtain ⟨L, A, a, Bpre, tB, hfind, hL, ha, hA, hB, hother⟩ := hS.sentinel
  obtain ⟨bx, hbx, hfree⟩ := hH.exitBlock hxl
  have hmS : ∀ l ∈ blockLabels S, l ≤ m := (List.max?_eq_some_iff'.1 hm).2
  have hxH : ∀ l ∈ blockLabels H, l ≤ xl := (List.max?_eq_some_iff'.1 hxl).2
  have hLS : L ∈ blockLabels S := mem_blockLabels_of_lookup hL
  have hH' : ∀ l ∈ blockLabels (addOffsetToLabels H (m + 1)), m + 1 ≤ l ∧ l ≤ xl + (m + 1) := by
    simp only [blockLabels_addOffsetToLabels, List.mem_map]
    rintro _ ⟨l, hl, rfl⟩
    exact ⟨by omega, by have := hxH l hl; omega⟩
  have hnd' : (blockLabels (addOffsetToLabels H (m + 1))).Nodup := by
    rw [blockLabels_addOffsetToLabels]
    exact hH.nodup.map fun _ _ h => Nat.add_right_cancel h
  have hfreshS : ∀ l ∈ blockLabels (addOffsetToLabels H (m + 1)), l ∉ blockLabels S :=
    fun l hl hlS => by have := hmS l hlS; have := (hH' l hl).1; omega
  have hnS : xl + (m + 1) + 1 ∉ blockLabels S := fun h => by have := hmS _ h; omega
  have hnH : xl + (m + 1) + 1 ∉ blockLabels (addOffsetToLabels H (m + 1)) :=
    fun h => by have := (hH' _ h).2; omega
  have hsplice : spliceLoopBody S H x = some (dictAppend
      (dictSet (S ++ addOffsetToLabels H (m + 1) ++ [(xl + (m + 1) + 1, Bpre ++ [tB])]) L
        (A ++ [.jump (e + (m + 1))])) (xl + (m + 1)) (.jump (xl + (m + 1) + 1))) := by
    simp only [spliceLoopBody, hm, blockLabels_addOffsetToLabels, max?_map_add hxl,
      min?_map_add he, hfind, Option.map_some', Option.bind_eq_bind, Option.some_bind]
    rw [foldl_dictSet hnd' hfreshS, @dictSet_of_not_mem (S ++ addOffsetToLabels H (m + 1))
      (xl + (m + 1) + 1) (Bpre ++ [tB])
      (by rw [blockLabels_append, List.mem_append, not_or]; exact ⟨hnS, hnH⟩)]
    rfl
  have hLR : L ∈ blockLabels (S ++ addOffsetToLabels H (m + 1) ++
      [(xl + (m + 1) + 1, Bpre ++ [tB])]) := by simp [hLS]
  have hExit : (addOffsetToLabels H (m + 1)).lookup (xl + (m + 1)) = some bx := by
    rw [lookup_addOffsetToLabels, hbx, Option.map_some',
      mapLast_mapTargets_of_getLast? fun s hs => hfree s (List.mem_of_getLast?_eq_some hs)]
  have hxH' := mem_blockLabels_of_lookup hExit
  have hLx : L ≠ xl + (m + 1) := fun h => hfreshS _ hxH' (h ▸ hLS)
  have hR : ∀ l, (dictAppend (dictSet (S ++ addOffsetToLabels H (m + 1) ++
      [(xl + (m + 1) + 1, Bpre ++ [tB])]) L (A ++ [.jump (e + (m + 1))])) (xl + (m + 1))
        (.jump (xl + (m + 1) + 1))).lookup l =
      ((((S.lookup l).or ((addOffsetToLabels H (m + 1)).lookup l)).or
        ([(xl + (m + 1) + 1, Bpre ++ [tB])].lookup l)).map
          fun b => if l = L then A ++ [.jump (e + (m + 1))] else b).map
        fun b => if l = xl + (m + 1) then b ++ [.jump (xl + (m + 1) + 1)] else b := by
    intro l
    rw [lookup_dictAppend, lookup_dictSet_of_mem _ hLR, List.lookup_append, List.lookup_append]
  refine ⟨_, L, A, a, Bpre, tB, bx, hsplice, hbx, hS.wellFormed, hL, ha, hA, hB, hother, hnd',
    ?_, hExit, hfree, ?_, hfreshS, hnS, hnH, ?_, ?_, ?_, ?_, ?_, ?_⟩
  · simp only [blockLabels_addOffsetToLabels, List.mem_map]
    exact ⟨e, (List.min?_eq_some_iff'.1 he).1, rfl⟩
  · intro l b hne hb
    obtain ⟨l₀, b₀, rfl, hb₀, rfl⟩ := lookup_addOffsetToLabels_eq_some hb
    exact goesWithin_addOffsetToLabels (hH.innerBlock hxl (by omega) hb₀)
  · rw [blockLabels_dictAppend, blockLabels_dictSet_of_mem _ hLR]
    simp
  · intro l hl hne
    obtain ⟨b, hb⟩ := exists_lookup_of_mem hl
    have : l ≠ xl + (m + 1) := fun h => hfreshS _ hxH' (h ▸ hl)
    rw [hR]
    simp [hb, hne, this]
  · rw [hR]
    simp [hL, hLx]
  · intro l hl hne
    obtain ⟨b, hb⟩ := exists_lookup_of_mem hl
    have : l ≠ L := fun h => hfreshS _ hl (h ▸ hLS)
    rw [hR]
    simp [hb, lookup_eq_none (hfreshS l hl), hne, this]
  · rw [hR]
    simp [hExit, lookup_eq_none (hfreshS _ hxH'), hLx.symm]
  · have : xl + (m + 1) + 1 ≠ L := fun h => hnS (h ▸ hLS)
    rw [hR]
    simp [lookup_eq_none hnS, lookup_eq_none hnH, this]

end Shape

/-! ### `remove_dels` -/

/-- A trace without its `del` statements, as `remove_dels` leaves a block. -/
def dropDels (tr : List Stmt) : List Stmt := tr.filter fun s => !s.isDel

@[simp] theorem dropDels_append (xs ys : List Stmt) :
    dropDels (xs ++ ys) = dropDels xs ++ dropDels ys :=
  List.filter_append xs ys

theorem Stmt.isDel_of_isTerminator {s : Stmt} (h : s.isTerminator = true) : s.isDel = false := by
  cases s <;> simp_all [Stmt.isTerminator, Stmt.isDel]

theorem dropDels_append_terminator (pre : Block) (t : Stmt) (ht : t.isTerminator = true) :
    dropDels (pre ++ [t]) = dropDels pre ++ [t] := by
  simp [dropDels, Stmt.isDel_of_isTerminator ht]

theorem dropDels_free {pre : Block} (h : ∀ s ∈ pre, s.isTerminator = false) :
    ∀ s ∈ dropDels pre, s.isTerminator = false :=
  fun s hs => h s (List.mem_of_mem_filter hs)

@[simp] theorem blockLabels_removeDels (bs : Blocks) : blockLabels (removeDels bs) = blockLabels bs :=
  blockLabels_map_val (fun _ b => dropDels b) bs

theorem lookup_removeDels (bs : Blocks) (l : Nat) :
    (removeDels bs).lookup l = (bs.lookup l).map dropDels :=
  lookup_map_val (fun _ b => dropDels b) bs l

section RemoveDels

variable {bs : Blocks}

theorem WellFormed.removeDels (hw : WellFormed bs) : WellFormed (removeDels bs) := by
  refine ⟨by simpa using hw.nodup, fun p hp => ?_⟩
  obtain ⟨⟨l, b⟩, hq, rfl⟩ := List.mem_map.1 hp
  obtain ⟨pre, t, rfl, hpre, ht, hts⟩ := isTerminated_iff.1 (hw.terminated _ hq)
  refine isTerminated_iff.2 ⟨dropDels pre, t, dropDels_append_terminator pre t ht, dropDels_free hpre,
    ht, by simpa using hts⟩

/-- **`remove_dels` drops the `del` statements from every path**, of a well-formed body. -/
theorem path_removeDels_iff (hw : WellFormed bs) (l : Nat) (tr : List Stmt) :
    Path (removeDels bs) l tr ↔ ∃ tr₀, Path bs l tr₀ ∧ tr = dropDels tr₀ := by
  constructor
  · rintro ⟨c, hc, hr⟩
    rw [lookup_removeDels, Option.map_eq_some'] at hc
    obtain ⟨b, hb, rfl⟩ := hc
    suffices ∀ {c tr}, Run (removeDels bs) c tr → ∀ {l b}, bs.lookup l = some b → c = dropDels b →
        ∃ tr₀, Run bs b tr₀ ∧ tr = dropDels tr₀ by
      obtain ⟨tr₀, hr₀, rfl⟩ := this hr hb rfl
      exact ⟨tr₀, ⟨b, hb, hr₀⟩, rfl⟩
    intro c tr hr
    induction hr with
    | exit hx =>
        intro l b hb hc
        obtain ⟨pre, t, rfl, -, ht, -⟩ := hw.block hb
        rw [dropDels_append_terminator pre t ht] at hc
        subst hc
        simp [ht] at hx
    | @ret pre' v =>
        intro l b hb hc
        obtain ⟨pre, t, rfl, -, ht, -⟩ := hw.block hb
        rw [dropDels_append_terminator pre t ht] at hc
        simp only [← List.concat_eq_append, List.concat_inj] at hc
        obtain ⟨rfl, rfl⟩ := hc
        exact ⟨_, .ret, (dropDels_append_terminator pre _ ht).symm⟩
    | @goto pre' t' l₁ c₁ tr₁ hm hlk _ ih =>
        intro l b hb hc
        obtain ⟨pre, t, rfl, -, ht, -⟩ := hw.block hb
        rw [dropDels_append_terminator pre t ht] at hc
        simp only [← List.concat_eq_append, List.concat_inj] at hc
        obtain ⟨rfl, rfl⟩ := hc
        rw [lookup_removeDels, Option.map_eq_some'] at hlk
        obtain ⟨b₁, hb₁, rfl⟩ := hlk
        obtain ⟨tr₀, hr₀, rfl⟩ := ih hb₁ rfl
        exact ⟨pre ++ tr₀, .goto hm hb₁ hr₀, (dropDels_append _ _).symm⟩
  · rintro ⟨tr₀, ⟨b, hb, hr⟩, rfl⟩
    refine ⟨dropDels b, by rw [lookup_removeDels, hb]; rfl, ?_⟩
    induction hr generalizing l with
    | exit hx =>
        obtain ⟨pre, t, rfl, -, ht, -⟩ := hw.block hb
        simp [ht] at hx
    | @ret pre v =>
        rw [dropDels_append_terminator pre (.ret v) rfl]
        exact .ret
    | @goto pre t l₁ b₁ tr₁ hm hlk _ ih =>
        rw [dropDels_append_terminator pre t (Stmt.isTerminator_of_mem_targets hm), dropDels_append]
        exact .goto hm (by rw [lookup_removeDels, hlk]; rfl) (ih l₁ hlk)

end RemoveDels

/-! ### Relabelled bodies -/

theorem WellFormed.relabel {bs : Blocks} (hw : WellFormed bs) {σ : Nat → Nat} {D : Set Nat}
    (hinj : Set.InjOn σ D) (hl : ∀ a ∈ blockLabels bs, a ∈ D) : WellFormed (relabel σ bs) := by
  refine ⟨?_, fun p hp => ?_⟩
  · rw [blockLabels_relabel]
    exact hw.nodup.map_on fun a ha b hb h => hinj (hl a ha) (hl b hb) h
  · obtain ⟨q, hq, rfl⟩ := List.mem_map.1 hp
    obtain ⟨pre, t, hb, hpre, ht, hts⟩ := isTerminated_iff.1 (hw.terminated q hq)
    rw [hb, isTerminated_iff]
    refine ⟨pre, _, mapLast_append_singleton .., hpre, by simpa using ht, ?_⟩
    simp only [Stmt.targets_mapTargets, List.mem_map, blockLabels_relabel]
    rintro _ ⟨m, hm, rfl⟩
    exact ⟨m, hts m hm, rfl⟩

/-- The targets of a well-formed body's blocks are labels of the body. -/
theorem WellFormed.lastTargets_mem {bs : Blocks} (hw : WellFormed bs) {p : Nat × Block}
    (hp : p ∈ bs) : ∀ m ∈ lastTargets p.2, m ∈ blockLabels bs := by
  obtain ⟨pre, t, hb, -, -, hts⟩ := isTerminated_iff.1 (hw.terminated p hp)
  rw [hb, lastTargets_append_singleton]
  exact hts

/-! ### `rename_labels` -/

/-- The label `rename_labels` gives to `l`: the `i`-th label of the topological order `order` gets
the `i`-th smallest. -/
def labelMap (order : List Nat) (l : Nat) : Nat :=
  ((order.zip (order.insertionSort (· ≤ ·))).lookup l).getD l

/-- Modelled from numba's `ir_utils.rename_labels(blocks)` (not under `src/`), which renames the
labels of the blocks "according to topological sort" and keeps their set, then updates the targets
of every block's terminator.  `order` is the topological order it computes; a label or a target it
lacks raises `KeyError`. -/
def renameLabels (order : List Nat) (bs : Blocks) : Option Blocks :=
  if bs.all fun p => decide (p.1 ∈ order) && (lastTargets p.2).all fun m => decide (m ∈ order)
  then some (relabel (labelMap order) bs) else none

/-- The end of the outline's surgery on the kernel's blocks: the splice, `rename_labels` along the
order `topo` computes for the spliced blocks, and `remove_dels`. -/
def buildKernelBlocks (topo : Blocks → List Nat) (stub loopBody : Blocks) (sentinel : String) :
    Option Blocks := do
  let bs ← spliceLoopBody stub loopBody sentinel
  let bs ← renameLabels (topo bs) bs
  pure (removeDels bs)

theorem lookup_zip_mem : ∀ {xs ys : List Nat} {a : Nat}, xs.length = ys.length → a ∈ xs →
    ∃ v ∈ ys, (xs.zip ys).lookup a = some v
  | [], _, _, _, h => by simp at h
  | _ :: _, [], _, hl, _ => by simp at hl
  | x :: xs, y :: ys, a, hl, h => by
      by_cases hax : a = x
      · subst hax
        exact ⟨y, List.mem_cons_self _ _, by simp⟩
      · obtain ⟨v, hv, hlk⟩ := lookup_zip_mem (by simpa using hl)
          ((List.mem_cons.1 h).resolve_left hax)
        exact ⟨v, List.mem_cons_of_mem _ hv, by simpa [List.lookup_cons, beq_false_of_ne hax]⟩

/-- Looking labels up along two lists of the same length maps the first onto the second. -/
theorem map_lookup_zip : ∀ {xs ys : List Nat}, xs.Nodup → xs.length = ys.length →
    xs.map (fun a => ((xs.zip ys).lookup a).getD a) = ys
  | [], [], _, _ => rfl
  | [], _ :: _, _, hl => by simp at hl
  | _ :: _, [], _, hl => by simp at hl
  | x :: xs, y :: ys, hnd, hl => by
      rw [List.nodup_cons] at hnd
      rw [List.map_cons, List.zip_cons_cons, List.lookup_cons_self, Option.getD_some]
      congr 1
      refine (List.map_congr_left fun a ha => ?_).trans (map_lookup_zip hnd.2 (by simpa using hl))
      have hax : a ≠ x := fun h => hnd.1 (h ▸ ha)
      simp [List.lookup_cons, beq_false_of_ne hax]

section LabelMap

variable {order : List Nat}

theorem insertionSort_perm (order : List Nat) : (order.insertionSort (· ≤ ·)).Perm order :=
  List.perm_insertionSort _ _

/-- `rename_labels` sends the labels of the order onto the same labels. -/
theorem map_labelMap (hnd : order.Nodup) :
    order.map (labelMap order) = order.insertionSort (· ≤ ·) :=
  map_lookup_zip hnd (insertionSort_perm order).length_eq.symm

theorem labelMap_injOn (hnd : order.Nodup) : Set.InjOn (labelMap order) {l | l ∈ order} := by
  have hsorted := (insertionSort_perm order).nodup_iff.2 hnd
  rw [← map_labelMap hnd] at hsorted
  exact fun a ha b hb h => List.inj_on_of_nodup_map hsorted ha hb h

/-- The first label of the order, the entry, gets the smallest label. -/
theorem labelMap_head {l₀ : Nat} (hhead : order.head? = some l₀) {μ : Nat}
    (hmin : order.min? = some μ) : labelMap order l₀ = μ := by
  obtain ⟨rest, rfl⟩ : ∃ rest, order = l₀ :: rest := by
    cases order with
    | nil => cases hhead
    | cons a rest => exact ⟨rest, by cases hhead; rfl⟩
  obtain ⟨hμ, hle⟩ := List.min?_eq_some_iff'.1 hmin
  have hsorted := List.sorted_insertionSort (· ≤ ·) (l₀ :: rest)
  have hne : (l₀ :: rest).insertionSort (· ≤ ·) ≠ [] := fun h => by
    have := (insertionSort_perm (l₀ :: rest)).length_eq
    rw [h] at this
    simp at this
  obtain ⟨s₀, sorted', hs⟩ := List.exists_cons_of_ne_nil hne
  rw [hs, List.sorted_cons] at hsorted
  have hs₀ : s₀ ∈ l₀ :: rest := (insertionSort_perm _).subset (hs ▸ List.mem_cons_self _ _)
  have hμs : μ ∈ s₀ :: sorted' := hs ▸ (insertionSort_perm _).symm.subset hμ
  have : s₀ = μ := by
    rcases List.mem_cons.1 hμs with h | h
    · exact h.symm
    · exact Nat.le_antisymm (hsorted.1 μ h) (hle s₀ hs₀)
  rw [labelMap, hs, List.zip_cons_cons, List.lookup_cons_self, Option.getD_some, this]

end LabelMap

/-- On a well-formed body, `rename_labels` along an order of all its labels raises no
`KeyError`. -/
theorem renameLabels_eq {bs : Blocks} (hw : WellFormed bs) {order : List Nat}
    (hperm : order.Perm (blockLabels bs)) : renameLabels order bs = some (relabel (labelMap order) bs) := by
  rw [renameLabels, if_pos]
  simp only [List.all_eq_true, Bool.and_eq_true, decide_eq_true_eq]
  exact fun p hp => ⟨hperm.symm.subset (List.mem_map_of_mem _ hp),
    fun m hm => hperm.symm.subset (hw.lastTargets_mem hp m hm)⟩

/-- **The blocks of the kernel.**  Take a stub that assigns the sentinel `x` exactly once, and a
loop body whose greatest label is its exit.  The splice returns the blocks `R` of
`SpliceShape`: the body's labels shifted by one more than the stub's greatest label, the
sentinel's block split into a first half at its own label that jumps to the body's entry and a
second half at one more than the shifted body's greatest label, to which the body's exit jumps;
no other block of the stub is changed.  Then, for every order that lists each label once and
starts with the stub's entry, as numba's topological order does, `rename_labels` and
`remove_dels` give well-formed blocks, with the same labels, whose paths from the entry are the
stub's paths with the sentinel assignment replaced by a path through the loop body, less their
`del` statements. -/
theorem buildKernelBlocks_spec {x : String} {S H : Blocks} (hS : StubCFG x S)
    (hH : LoopBodyCFG H) {s₀ m e xl : Nat} (hs₀ : (blockLabels S).min? = some s₀)
    (hm : (blockLabels S).max? = some m) (he : (blockLabels H).min? = some e)
    (hxl : (blockLabels H).max? = some xl) :
    ∃ R L A a Bpre tB bx, spliceLoopBody S H x = some R ∧ H.lookup xl = some bx ∧
      SpliceShape x S (addOffsetToLabels H (m + 1)) R L A a Bpre tB (e + (m + 1))
        (xl + (m + 1)) bx (xl + (m + 1) + 1) ∧
      ∀ topo : Blocks → List Nat, (topo R).Perm (blockLabels R) → (topo R).head? = some s₀ →
        ∃ F, buildKernelBlocks topo S H x = some F ∧ WellFormed F ∧
          (blockLabels F).Perm (blockLabels R) ∧
          ∀ tr, Path F s₀ tr ↔ ∃ tr₀ tr₁, Path S s₀ tr₀ ∧
            Replaced (Stmt.assigns x) (Path H e) tr₀ tr₁ ∧ tr = dropDels tr₁ := by
  obtain ⟨R, L, A, a, Bpre, tB, bx, hsplice, hbx, sh⟩ := spliceLoopBody_shape hS hH hm he hxl
  refine ⟨R, L, A, a, Bpre, tB, bx, hsplice, hbx, sh, fun topo hperm hhead => ?_⟩
  have hwR := sh.wellFormed
  have hnd : (topo R).Nodup := hperm.nodup_iff.2 hwR.nodup
  have hD : ∀ l ∈ blockLabels R, l ∈ {l | l ∈ topo R} := fun l hl => hperm.symm.subset hl
  have hinj := labelMap_injOn hnd
  have hwF := hwR.relabel hinj hD
  have hs₀S : s₀ ∈ blockLabels S := (List.min?_eq_some_iff'.1 hs₀).1
  have hs₀m : s₀ ≤ m := (List.max?_eq_some_iff'.1 hm).2 s₀ hs₀S
  -- the stub's entry is the least label of the spliced blocks, and keeps its label
  have hmin : (topo R).min? = some s₀ := by
    refine List.min?_eq_some_iff'.2 ⟨hperm.symm.subset (sh.labels.symm.subset (by simp [hs₀S])),
      fun b hb => ?_⟩
    have hb' := sh.labels.subset (hperm.subset hb)
    simp only [List.mem_append, blockLabels_addOffsetToLabels, List.mem_map,
      List.mem_singleton] at hb'
    rcases hb' with (hb' | ⟨l, -, rfl⟩) | rfl
    · exact (List.min?_eq_some_iff'.1 hs₀).2 b hb'
    · omega
    · omega
  have hσ : labelMap (topo R) s₀ = s₀ := labelMap_head hhead hmin
  refine ⟨removeDels (relabel (labelMap (topo R)) R), ?_, hwF.removeDels, ?_, fun tr => ?_⟩
  · simp [buildKernelBlocks, hsplice, renameLabels_eq hwR hperm]
  · rw [blockLabels_removeDels, blockLabels_relabel]
    exact ((hperm.symm.map _).trans (map_labelMap hnd ▸ insertionSort_perm _)).trans hperm
  · have hpath := path_relabel_iff hinj hD (fun p hp m hm => hD m (hwR.lastTargets_mem hp m hm))
      (hD s₀ (sh.labels.symm.subset (by simp [hs₀S])))
    rw [hσ] at hpath
    simp only [path_removeDels_iff hwF, hpath, sh.path_iff hs₀S]
    constructor
    · rintro ⟨tr₁, ⟨tr₀, h₀, hrep⟩, rfl⟩
      exact ⟨tr₀, tr₁, h₀, hrep.mono fun p hp => (path_addOffsetToLabels_iff e p).1 hp, rfl⟩
    · rintro ⟨tr₀, tr₁, h₀, hrep, rfl⟩
      exact ⟨tr₁, ⟨tr₀, h₀, hrep.mono fun p hp => (path_addOffsetToLabels_iff e p).2 hp⟩, rfl⟩

/-! A stub of a one-dimensional kernel, `i = get_global_id(0); __sentinel__ = 0; return None`,
and a loop body `b[i] = a` whose exit is empty. -/

/-- The stub's one block. -/
def stubBlocks : Blocks :=
  [(0, [.assign "i" (.call "$get_global_id" ["$zero"] []), .assign "__sentinel__" (.const 0),
    .ret "$none"])]

/-- The loop body `b[i] = a`. -/
def copyLoopBody : Blocks := [(0, [.setItem "b" "i" (.var "a"), .jump 1]), (1, [])]

theorem buildKernelBlocks_spec_copy :
    StubCFG "__sentinel__" stubBlocks ∧ LoopBodyCFG copyLoopBody ∧
      (∃ R L A a Bpre tB bx, spliceLoopBody stubBlocks copyLoopBody "__sentinel__" = some R ∧
        copyLoopBody.lookup 1 = some bx ∧
        SpliceShape "__sentinel__" stubBlocks (addOffsetToLabels copyLoopBody (0 + 1)) R L A a Bpre
          tB (0 + (0 + 1)) (1 + (0 + 1)) bx (1 + (0 + 1) + 1) ∧
        ∀ topo : Blocks → List Nat, (topo R).Perm (blockLabels R) → (topo R).head? = some 0 →
          ∃ F, buildKernelBlocks topo stubBlocks copyLoopBody "__sentinel__" = some F ∧
            WellFormed F ∧ (blockLabels F).Perm (blockLabels R) ∧
            ∀ tr, Path F 0 tr ↔ ∃ tr₀ tr₁, Path stubBlocks 0 tr₀ ∧
              Replaced (Stmt.assigns "__sentinel__") (Path copyLoopBody 0) tr₀ tr₁ ∧
                tr = dropDels tr₁) :=
  have hS : StubCFG "__sentinel__" stubBlocks := ⟨⟨by decide, by decide⟩, by decide⟩
  have hH : LoopBodyCFG copyLoopBody := ⟨by decide, by decide, by decide⟩
  ⟨hS, hH, buildKernelBlocks_spec hS hH rfl rfl rfl rfl⟩

/-- A loop body whose exit deletes a temporary, `del t`, as numba leaves parfor bodies. -/
def delLoopBody : Blocks := [(0, [.del "t"])]

/-- A stub that only assigns the sentinel and returns. -/
def sentinelStub : Blocks := [(0, [.assign "__sentinel__" (.const 0), .ret "$none"])]

/-- The kernel built from them has a path that is not the stub's path with the sentinel replaced
by the body's: the `del` is gone. -/
theorem buildKernelBlocks_drops_dels :
    ∃ F, buildKernelBlocks (fun _ => [0, 1, 2]) sentinelStub delLoopBody "__sentinel__" = some F ∧
      Path F 0 [.ret "$none"] ∧
      ¬ ∃ tr₀, Path sentinelStub 0 tr₀ ∧
        Replaced (Stmt.assigns "__sentinel__") (Path delLoopBody 0) tr₀ [.ret "$none"] := by
  refine ⟨[(0, [.jump 1]), (1, [.jump 2]), (2, [.ret "$none"])], rfl,
    ⟨_, rfl, @Run.goto _ [] _ 1 _ _ (by simp [Stmt.targets]) rfl
      (@Run.goto _ [] _ 2 _ _ (by simp [Stmt.targets]) rfl (@Run.ret _ [] "$none"))⟩, ?_⟩
  rintro ⟨tr₀, ⟨b, hb, hr⟩, hrep⟩
  cases hb
  rw [@Run.eq_of_ret _ [.assign "__sentinel__" (.const 0)] "$none" _ hr] at hrep
  rcases hrep.cons_inv with ⟨hs, -⟩ | ⟨-, p, ys, hys, ⟨b', hb', hp⟩, hrest⟩
  · cases hs
  · cases hb'
    rw [hp.eq_of_free (by decide), hrest.eq_of_free (by decide)] at hys
    cases hys

end ParforOffload
