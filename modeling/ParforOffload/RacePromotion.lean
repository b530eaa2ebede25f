/-
**Promotion of race variables to one-element arrays.**

A variable that the work-items of a kernel may all write is a *race variable*.
`_create_gufunc_for_parfor_body` warns about each one and hands the set to
`replace_var_with_array`, which rewrites every assignment `v = e` to such a variable — in the loop
body, in the init block and loop body of every nested parfor, to any depth — into a store
`v[0] = e` through a fresh index variable, and then promotes the type of `v` to a one-element
C array of its old type.

The rewrite threads three pieces of state: the typemap (the fresh index variables are typed
`uintp`), the calltypes (each new `SetItem` gets a signature) and numba's unique-name counter.
What the rewrite does to a body is the relation `ParforOffload.PromotedBlocks`; it is stated
against the *final* state, and `ParforOffload.PromoteState.Extends` is what lets facts recorded
early in the traversal survive until its end.

Main definitions:

* `ParforOffload.replaceVarWithArrayInStmt`, `ParforOffload.replaceVarWithArrayInBlock`,
  `ParforOffload.replaceVarWithArrayInternal`, `ParforOffload.replaceVarWithArray` — the four
  functions of the source, statement by statement;
* `ParforOffload.PromotedStmt`, `ParforOffload.PromotedBlock`, `ParforOffload.PromotedBlocks` —
  the rewrite, as a relation between a body and its image;
* `ParforOffload.assignTargetsBlocks` — the targets of all assignments of a body, at any depth.

Main results:

* `ParforOffload.replaceVarWithArrayInternal_spec` — the traversal succeeds and relates the body
  to its image;
* `ParforOffload.replaceVarWithArray_promotes` — **the whole rewrite**: no assignment to a race
  variable is left at any depth, each one became the index assignment and the typed store, every
  other statement stayed in place, and every race variable is promoted exactly once.
-/

import ParforOffload.Ir

set_option autoImplicit false

namespace ParforOffload

/-! ### The rewrite -/

/-- What `replace_var_with_array` threads through its traversal. -/
structure PromoteState where
  typemap : Typemap
  calltypes : List (Stmt × Sig)
  counter : Nat

/-- The index variable the rewrite creates: `mk_unique_var("$const_ind_0")`. -/
def constIndName (counter : Nat) : String := mkUniqueVar "$const_ind_0" counter

theorem constIndName_injective : Function.Injective constIndName := by
  intro a b h
  apply append_toString_injective ("$const_ind_0" ++ ".")
  simpa [constIndName, mkUniqueVar, String.append_assoc] using h

/-- The calltype of the store into a promoted variable of type `t`:
`signature(none, Array(t, 1, "C"), intp, t)`. -/
def setitemSig (t : Ty) : Sig := ⟨Ty.none, [.array t 1 "C", Ty.intp, t]⟩

mutual
/-- One statement of `replace_var_with_array_in_block`.  An assignment to a variable of `vars`
becomes the assignment of `0` to a fresh `uintp` index variable and a `SetItem` through it, whose
calltype is read from the typemap; a nested parfor has its init block and its loop body rewritten
in place; any other statement is kept. -/
def replaceVarWithArrayInStmt (vars : List String) :
    Stmt → PromoteState → Option (List Stmt × PromoteState)
  | .assign t e, st =>
      if t ∈ vars then
        let k := constIndName st.counter
        let tm := st.typemap.set k Ty.uintp
        (tm t).map fun tt =>
          ([.assign k (.const 0), .setItem t k e],
            ⟨tm, st.calltypes ++ [(.setItem t k e, setitemSig tt)], st.counter + 1⟩)
      else some ([.assign t e], st)
  | .parfor ls init body, st => do
      let (init', st₁) ← replaceVarWithArrayInBlock vars init st
      let (body', st₂) ← replaceVarWithArrayInternal vars body st₁
      pure ([.parfor ls init' body'], st₂)
  | s, st => some ([s], st)

/-- `replace_var_with_array_in_block`: the new body of a block. -/
def replaceVarWithArrayInBlock (vars : List String) :
    Block → PromoteState → Option (Block × PromoteState)
  | [], st => some ([], st)
  | s :: ss, st => do
      let (out, st₁) ← replaceVarWithArrayInStmt vars s st
      let (ss', st₂) ← replaceVarWithArrayInBlock vars ss st₁
      pure (out ++ ss', st₂)

/-- `replace_var_with_array_internal`: every block of a loop body, in order. -/
def replaceVarWithArrayInternal (vars : List String) :
    Blocks → PromoteState → Option (Blocks × PromoteState)
  | [], st => some ([], st)
  | (l, b) :: bs, st => do
      let (b', st₁) ← replaceVarWithArrayInBlock vars b st
      let (bs', st₂) ← replaceVarWithArrayInternal vars bs st₁
      pure ((l, b') :: bs', st₂)
end

/-- The type promotion at the end of `replace_var_with_array`: for each `v`,
`el_typ = typemap[v]; typemap.pop(v); typemap[v] = Array(el_typ, 1, "C")`. -/
def promoteTypes (vars : List String) (tm : Typemap) : Option Typemap :=
  vars.foldlM (fun tm v => (tm v).map fun el => tm.set v (.array el 1 "C")) tm

/-- `replace_var_with_array(vars, loop_body, typemap, calltypes)`. -/
def replaceVarWithArray (vars : List String) (body : Blocks) (st : PromoteState) :
    Option (Blocks × PromoteState) := do
  let (body', st₁) ← replaceVarWithArrayInternal vars body st
  let tm ← promoteTypes vars st₁.typemap
  pure (body', { st₁ with typemap := tm })

/-! ### What the rewrite does -/

section Spec

variable (vars : List String) (tm₀ : Typemap) (c₀ : Nat)

mutual
/-- What one statement becomes, against the final state `st`: an assignment to a race variable
`v` of type `T` becomes `k = 0; v[k] = e` for a name `k` generated by this run, typed `uintp`,
with the store's calltype recorded; a nested parfor is rewritten inside; anything else stays. -/
inductive PromotedStmt (st : PromoteState) : Stmt → List Stmt → Prop
  | race {v : String} {e : Value} {T : Ty} {n : Nat} (hv : v ∈ vars) (hT : tm₀ v = some T)
      (hn : c₀ ≤ n) (hn' : n < st.counter) (hk : st.typemap (constIndName n) = some Ty.uintp)
      (hsig : (Stmt.setItem v (constIndName n) e, ⟨Ty.none, [.array T 1 "C", Ty.intp, T]⟩) ∈
        st.calltypes) :
      PromotedStmt st (.assign v e)
        [.assign (constIndName n) (.const 0), .setItem v (constIndName n) e]
  | parfor {ls : List LoopNest} {init init' : Block} {body body' : Blocks}
      (hinit : PromotedBlock st init init') (hbody : PromotedBlocks st body body') :
      PromotedStmt st (.parfor ls init body) [.parfor ls init' body']
  | keep {s : Stmt} (hs : ∀ v e, s = .assign v e → v ∉ vars)
      (hp : ∀ ls init body, s ≠ .parfor ls init body) : PromotedStmt st s [s]

/-- A block and its image: the images of its statements, in order. -/
inductive PromotedBlock (st : PromoteState) : Block → Block → Prop
  | nil : PromotedBlock st [] []
  | cons {s : Stmt} {out ss ss' : List Stmt} (hs : PromotedStmt st s out)
      (hss : PromotedBlock st ss ss') : PromotedBlock st (s :: ss) (out ++ ss')

/-- A loop body and its image: the same labels, each block related to its image. -/
inductive PromotedBlocks (st : PromoteState) : Blocks → Blocks → Prop
  | nil : PromotedBlocks st [] []
  | cons {l : Nat} {b b' : Block} {bs bs' : Blocks} (hb : PromotedBlock st b b')
      (hbs : PromotedBlocks st bs bs') : PromotedBlocks st ((l, b) :: bs) ((l, b') :: bs')
end

/-- The invariant of the traversal: the counter has not gone back, and the race variables still
have their original types. -/
def PromoteState.Inv (st : PromoteState) : Prop :=
  c₀ ≤ st.counter ∧ ∀ v ∈ vars, st.typemap v = tm₀ v

/-- `st'` comes after `st`: the calltypes only grew, the counter did not go back, and the index
variables generated by this run before `st` kept their types. -/
def PromoteState.Extends (st st' : PromoteState) : Prop :=
  st.calltypes <+: st'.calltypes ∧ st.counter ≤ st'.counter ∧
    ∀ n, c₀ ≤ n → n < st.counter → st'.typemap (constIndName n) = st.typemap (constIndName n)

variable {vars tm₀ c₀}

theorem PromoteState.Extends.refl (st : PromoteState) : st.Extends c₀ st :=
  ⟨List.prefix_refl _, le_rfl, fun _ _ _ => rfl⟩

theorem PromoteState.Extends.trans {st₁ st₂ st₃ : PromoteState} (h₁ : st₁.Extends c₀ st₂)
    (h₂ : st₂.Extends c₀ st₃) : st₁.Extends c₀ st₃ :=
  ⟨h₁.1.trans h₂.1, h₁.2.1.trans h₂.2.1,
    fun n hn hn' => (h₂.2.2 n hn (by have := h₁.2.1; omega)).trans (h₁.2.2 n hn hn')⟩

mutual
/-- The relation survives a later state. -/
theorem PromotedStmt.mono {st st' : PromoteState} (he : st.Extends c₀ st') :
    ∀ {s out}, PromotedStmt vars tm₀ c₀ st s out → PromotedStmt vars tm₀ c₀ st' s out
  | _, _, .race hv hT hn hn' hk hsig =>
      .race hv hT hn (by have := he.2.1; omega) ((he.2.2 _ hn hn').trans hk)
        (he.1.subset hsig)
  | _, _, .parfor hinit hbody => .parfor (hinit.mono he) (hbody.mono he)
  | _, _, .keep hs hp => .keep hs hp

theorem PromotedBlock.mono {st st' : PromoteState} (he : st.Extends c₀ st') :
    ∀ {b b'}, PromotedBlock vars tm₀ c₀ st b b' → PromotedBlock vars tm₀ c₀ st' b b'
  | _, _, .nil => .nil
  | _, _, .cons hs hss => .cons (hs.mono he) (hss.mono he)

theorem PromotedBlocks.mono {st st' : PromoteState} (he : st.Extends c₀ st') :
    ∀ {b b'}, PromotedBlocks vars tm₀ c₀ st b b' → PromotedBlocks vars tm₀ c₀ st' b b'
  | _, _, .nil => .nil
  | _, _, .cons hb hbs => .cons (hb.mono he) (hbs.mono he)
end

/-- The typemap changed from `st` to `st'` only at index variables generated in between, which
are typed `uintp`. -/
def PromoteState.Frame (st st' : PromoteState) : Prop :=
  ∀ x, st'.typemap x = st.typemap x ∨
    ∃ n, st.counter ≤ n ∧ n < st'.counter ∧ x = constIndName n ∧ st'.typemap x = some Ty.uintp

theorem PromoteState.Frame.trans {st₁ st₂ st₃ : PromoteState} (h₁ : st₁.Frame st₂)
    (h₂ : st₂.Frame st₃) (hc₁ : st₁.counter ≤ st₂.counter) (hc₂ : st₂.counter ≤ st₃.counter) :
    st₁.Frame st₃ := by
  intro x
  rcases h₂ x with h | ⟨n, hn, hn', rfl, hx⟩
  · rcases h₁ x with h' | ⟨n, hn, hn', rfl, hx⟩
    · exact .inl (h.trans h')
    · exact .inr ⟨n, hn, by omega, rfl, h.trans hx⟩
  · exact .inr ⟨n, by omega, hn', rfl, hx⟩

variable (vars tm₀ c₀) in
/-- One stretch of the traversal, from `st` to `st'`: the invariant holds again, `st'` extends
`st`, and the typemap changed only at new index variables. -/
structure Advances (st st' : PromoteState) : Prop where
  inv : st'.Inv vars tm₀ c₀
  ext : st.Extends c₀ st'
  frame : st.Frame st'

theorem Advances.trans {st₁ st₂ st₃ : PromoteState} (h₁ : Advances vars tm₀ c₀ st₁ st₂)
    (h₂ : Advances vars tm₀ c₀ st₂ st₃) : Advances vars tm₀ c₀ st₁ st₃ :=
  ⟨h₂.inv, h₁.ext.trans h₂.ext, h₁.frame.trans h₂.frame h₁.ext.2.1 h₂.ext.2.1⟩

theorem Advances.refl {st : PromoteState} (h : st.Inv vars tm₀ c₀) : Advances vars tm₀ c₀ st st :=
  ⟨h, .refl st, fun _ => .inl rfl⟩

end Spec

/-! ### The traversal -/

section Traversal

variable {vars : List String} {tm₀ : Typemap} {c₀ : Nat}

/-- One race assignment: the new state, and what it guarantees. -/
theorem replaceVarWithArrayInStmt_race (hfresh : ∀ v ∈ vars, ∀ n, c₀ ≤ n → v ≠ constIndName n)
    {t : String} (ht : t ∈ vars) {T : Ty} (hT : tm₀ t = some T) (e : Value) {st : PromoteState}
    (hinv : st.Inv vars tm₀ c₀) :
    ∃ st', replaceVarWithArrayInStmt vars (.assign t e) st = some
        ([.assign (constIndName st.counter) (.const 0), .setItem t (constIndName st.counter) e],
          st') ∧ Advances vars tm₀ c₀ st st' ∧
      PromotedStmt vars tm₀ c₀ st' (.assign t e)
        [.assign (constIndName st.counter) (.const 0), .setItem t (constIndName st.counter) e] := by
  have hne : ∀ v ∈ vars, v ≠ constIndName st.counter := fun v hv => hfresh v hv _ hinv.1
  refine ⟨⟨st.typemap.set (constIndName st.counter) Ty.uintp,
    st.calltypes ++ [(.setItem t (constIndName st.counter) e, setitemSig T)], st.counter + 1⟩,
    ?_, ⟨⟨Nat.le_succ_of_le hinv.1, fun v hv => ?_⟩, ⟨List.prefix_append _ _, by simp, fun n _ hn => ?_⟩,
      fun x => ?_⟩, .race ht hT hinv.1 (by simp) (by simp) (by simp [setitemSig])⟩
  · simp [replaceVarWithArrayInStmt, ht, Typemap.set_ne _ _ (hne t ht), hinv.2 t ht, hT]
  · simp only [Typemap.set_ne _ _ (hne v hv), hinv.2 v hv]
  · exact Typemap.set_ne _ _ (fun h => by have := constIndName_injective h; omega)
  · by_cases hx : x = constIndName st.counter
    · exact .inr ⟨st.counter, le_rfl, by simp, hx, by simp [hx]⟩
    · exact .inl (Typemap.set_ne _ _ hx)

mutual
/-- The traversal of a statement succeeds, and relates the statement to its image. -/
theorem replaceVarWithArrayInStmt_spec (hfresh : ∀ v ∈ vars, ∀ n, c₀ ≤ n → v ≠ constIndName n)
    (hdef : ∀ v ∈ vars, ∃ T, tm₀ v = some T) :
    ∀ (s : Stmt) (st : PromoteState), st.Inv vars tm₀ c₀ → ∃ out st',
      replaceVarWithArrayInStmt vars s st = some (out, st') ∧ Advances vars tm₀ c₀ st st' ∧
        PromotedStmt vars tm₀ c₀ st' s out
  | .assign t e, st, hinv => by
      by_cases ht : t ∈ vars
      · obtain ⟨T, hT⟩ := hdef t ht
        exact ⟨_, replaceVarWithArrayInStmt_race hfresh ht hT e hinv⟩
      · exact ⟨_, _, by simp [replaceVarWithArrayInStmt, ht], .refl hinv,
          .keep (by simp_all) (by simp)⟩
  | .parfor ls init body, st, hinv => by
      obtain ⟨init', st₁, h₁, ha₁, hr₁⟩ := replaceVarWithArrayInBlock_spec hfresh hdef init st hinv
      obtain ⟨body', st₂, h₂, ha₂, hr₂⟩ :=
        replaceVarWithArrayInternal_spec hfresh hdef body st₁ ha₁.inv
      exact ⟨_, _, by simp [replaceVarWithArrayInStmt, h₁, h₂], ha₁.trans ha₂,
        .parfor (hr₁.mono ha₂.ext) hr₂⟩
  | .setItem .., st, hinv | .staticSetItem .., st, hinv | .del _, st, hinv | .jump _, st, hinv
  | .branch .., st, hinv | .ret _, st, hinv | .other .., st, hinv =>
      ⟨_, _, rfl, .refl hinv, .keep (by simp) (by simp)⟩

/-- The traversal of a block succeeds, and relates the block to its image. -/
theorem replaceVarWithArrayInBlock_spec (hfresh : ∀ v ∈ vars, ∀ n, c₀ ≤ n → v ≠ constIndName n)
    (hdef : ∀ v ∈ vars, ∃ T, tm₀ v = some T) :
    ∀ (b : Block) (st : PromoteState), st.Inv vars tm₀ c₀ → ∃ b' st',
      replaceVarWithArrayInBlock vars b st = some (b', st') ∧ Advances vars tm₀ c₀ st st' ∧
        PromotedBlock vars tm₀ c₀ st' b b'
  | [], st, hinv => ⟨[], st, rfl, .refl hinv, .nil⟩
  | s :: ss, st, hinv => by
      obtain ⟨out, st₁, h₁, ha₁, hr₁⟩ := replaceVarWithArrayInStmt_spec hfresh hdef s st hinv
      obtain ⟨ss', st₂, h₂, ha₂, hr₂⟩ := replaceVarWithArrayInBlock_spec hfresh hdef ss st₁ ha₁.inv
      exact ⟨_, _, by simp [replaceVarWithArrayInBlock, h₁, h₂], ha₁.trans ha₂,
        .cons (hr₁.mono ha₂.ext) hr₂⟩

/-- **The traversal of a loop body succeeds**, and relates the body to its image. -/
theorem replaceVarWithArrayInternal_spec (hfresh : ∀ v ∈ vars, ∀ n, c₀ ≤ n → v ≠ constIndName n)
    (hdef : ∀ v ∈ vars, ∃ T, tm₀ v = some T) :
    ∀ (bs : Blocks) (st : PromoteState), st.Inv vars tm₀ c₀ → ∃ bs' st',
      replaceVarWithArrayInternal vars bs st = some (bs', st') ∧ Advances vars tm₀ c₀ st st' ∧
        PromotedBlocks vars tm₀ c₀ st' bs bs'
  | [], st, hinv => ⟨[], st, rfl, .refl hinv, .nil⟩
  | (l, b) :: bs, st, hinv => by
      obtain ⟨b', st₁, h₁, ha₁, hr₁⟩ := replaceVarWithArrayInBlock_spec hfresh hdef b st hinv
      obtain ⟨bs', st₂, h₂, ha₂, hr₂⟩ := replaceVarWithArrayInternal_spec hfresh hdef bs st₁ ha₁.inv
      exact ⟨_, _, by simp [replaceVarWithArrayInternal, h₁, h₂], ha₁.trans ha₂,
        .cons (hr₁.mono ha₂.ext) hr₂⟩
end

/-! ### No assignment to a race variable is left -/

mutual
/-- The targets of the assignments of a statement, descending into nested parfors. -/
def Stmt.assignTargets : Stmt → List String
  | .assign t _ => [t]
  | .parfor _ init body => assignTargetsBlock init ++ assignTargetsBlocks body
  | _ => []

/-- The targets of the assignments of a block. -/
def assignTargetsBlock : Block → List String
  | [] => []
  | s :: ss => s.assignTargets ++ assignTargetsBlock ss

/-- The targets of the assignments of a loop body, at any depth. -/
def assignTargetsBlocks : Blocks → List String
  | [] => []
  | (_, b) :: bs => assignTargetsBlock b ++ assignTargetsBlocks bs
end

@[simp] theorem assignTargetsBlock_append (b₁ b₂ : Block) :
    assignTargetsBlock (b₁ ++ b₂) = assignTargetsBlock b₁ ++ assignTargetsBlock b₂ := by
  induction b₁ with
  | nil => rfl
  | cons s ss ih => simp [assignTargetsBlock, ih]

mutual
theorem PromotedStmt.not_mem_assignTargets {st : PromoteState}
    (hfresh : ∀ v ∈ vars, ∀ n, c₀ ≤ n → v ≠ constIndName n) :
    ∀ {s out}, PromotedStmt vars tm₀ c₀ st s out → ∀ v ∈ vars, v ∉ assignTargetsBlock out
  | _, _, .race _ _ hn _ _ _, v, hv => by
      simpa [assignTargetsBlock, Stmt.assignTargets] using hfresh v hv _ hn
  | _, _, .parfor hinit hbody, v, hv => by
      simpa [assignTargetsBlock, Stmt.assignTargets] using
        ⟨hinit.not_mem_assignTargets hfresh v hv, hbody.not_mem_assignTargets hfresh v hv⟩
  | s, _, .keep hs hp, v, hv => by
      cases s <;> simp_all [assignTargetsBlock, Stmt.assignTargets]
      exact fun h => hs (h ▸ hv)

theorem PromotedBlock.not_mem_assignTargets {st : PromoteState}
    (hfresh : ∀ v ∈ vars, ∀ n, c₀ ≤ n → v ≠ constIndName n) :
    ∀ {b b'}, PromotedBlock vars tm₀ c₀ st b b' → ∀ v ∈ vars, v ∉ assignTargetsBlock b'
  | _, _, .nil, v, _ => by simp [assignTargetsBlock]
  | _, _, .cons hs hss, v, hv => by
      simpa using ⟨hs.not_mem_assignTargets hfresh v hv, hss.not_mem_assignTargets hfresh v hv⟩

theorem PromotedBlocks.not_mem_assignTargets {st : PromoteState}
    (hfresh : ∀ v ∈ vars, ∀ n, c₀ ≤ n → v ≠ constIndName n) :
    ∀ {b b'}, PromotedBlocks vars tm₀ c₀ st b b' → ∀ v ∈ vars, v ∉ assignTargetsBlocks b'
  | _, _, .nil, v, _ => by simp [assignTargetsBlocks]
  | _, _, .cons hb hbs, v, hv => by
      simpa [assignTargetsBlocks] using
        ⟨hb.not_mem_assignTargets hfresh v hv, hbs.not_mem_assignTargets hfresh v hv⟩
end

end Traversal

/-! ### The shape of a successful rewrite -/

mutual
/-- What any successful rewrite does to a statement, whatever the state: an assignment to a
variable of `vars` becomes `k = 0; v[k] = e` for a generated `k`, a nested parfor is rewritten
inside, anything else stays. -/
inductive RewrittenStmt (vars : List String) : Stmt → List Stmt → Prop
  | race {v : String} {e : Value} (n : Nat) (hv : v ∈ vars) :
      RewrittenStmt vars (.assign v e)
        [.assign (constIndName n) (.const 0), .setItem v (constIndName n) e]
  | parfor {ls : List LoopNest} {init init' : Block} {body body' : Blocks}
      (hinit : RewrittenBlock vars init init') (hbody : RewrittenBlocks vars body body') :
      RewrittenStmt vars (.parfor ls init body) [.parfor ls init' body']
  | keep {s : Stmt} (hs : ∀ v e, s = .assign v e → v ∉ vars)
      (hp : ∀ ls init body, s ≠ .parfor ls init body) : RewrittenStmt vars s [s]

/-- A block and the images of its statements, in order. -/
inductive RewrittenBlock (vars : List String) : Block → Block → Prop
  | nil : RewrittenBlock vars [] []
  | cons {s : Stmt} {out ss ss' : List Stmt} (hs : RewrittenStmt vars s out)
      (hss : RewrittenBlock vars ss ss') : RewrittenBlock vars (s :: ss) (out ++ ss')

/-- A loop body and its image, label by label. -/
inductive RewrittenBlocks (vars : List String) : Blocks → Blocks → Prop
  | nil : RewrittenBlocks vars [] []
  | cons {l : Nat} {b b' : Block} {bs bs' : Blocks} (hb : RewrittenBlock vars b b')
      (hbs : RewrittenBlocks vars bs bs') : RewrittenBlocks vars ((l, b) :: bs) ((l, b') :: bs')
end

section Shape

variable {vars : List String}

/-- `ys` is `xs` with entries satisfying `P` appended, and nothing else changed: how the calltypes
and the diagnostics of a run grow. -/
def AppendsOnly {α : Type} (P : α → Prop) (xs ys : List α) : Prop :=
  ∃ ds, ys = xs ++ ds ∧ ∀ d ∈ ds, P d

namespace AppendsOnly

variable {α : Type} {P Q : α → Prop} {xs ys zs : List α}

theorem refl (xs : List α) : AppendsOnly P xs xs := ⟨[], by simp, by simp⟩

theorem trans (h₁ : AppendsOnly P xs ys) (h₂ : AppendsOnly P ys zs) : AppendsOnly P xs zs := by
  obtain ⟨ds₁, rfl, hd₁⟩ := h₁
  obtain ⟨ds₂, rfl, hd₂⟩ := h₂
  refine ⟨ds₁ ++ ds₂, List.append_assoc .., ?_⟩
  simp only [List.mem_append]
  rintro d (hd | hd)
  exacts [hd₁ d hd, hd₂ d hd]

theorem mono (h : AppendsOnly P xs ys) (hPQ : ∀ d, P d → Q d) : AppendsOnly Q xs ys :=
  let ⟨ds, hys, hd⟩ := h
  ⟨ds, hys, fun d hd' => hPQ d (hd d hd')⟩

end AppendsOnly

/-- A calltype race promotion adds: that of a store through one of its index variables. -/
def IsSetitemSig (c : Stmt × Sig) : Prop :=
  ∃ v n e t, c = (.setItem v (constIndName n) e, ⟨Ty.none, [.array t 1 "C", Ty.intp, t]⟩)

/-- What a successful stretch of the traversal does to the state, whatever the state. -/
structure PromoteState.Generates (st st' : PromoteState) : Prop where
  /-- The calltypes only gained the signatures of new stores. -/
  calltypes : AppendsOnly IsSetitemSig st.calltypes st'.calltypes
  /-- The counter did not go back. -/
  counter : st.counter ≤ st'.counter
  /-- The typemap changed only at the index variables generated in between. -/
  frame : st.Frame st'

theorem PromoteState.Generates.refl (st : PromoteState) : st.Generates st :=
  ⟨.refl _, le_rfl, fun _ => .inl rfl⟩

theorem PromoteState.Generates.trans {st₁ st₂ st₃ : PromoteState} (h₁ : st₁.Generates st₂)
    (h₂ : st₂.Generates st₃) : st₁.Generates st₃ :=
  ⟨h₁.calltypes.trans h₂.calltypes, h₁.counter.trans h₂.counter,
    h₁.frame.trans h₂.frame h₁.counter h₂.counter⟩

mutual
/-- **What a successful step does**, whatever the state: the statement's image has the shape of
the rewrite, and the state only generated index variables. -/
theorem replaceVarWithArrayInStmt_rewritten :
    ∀ {s : Stmt} {st : PromoteState} {out st'},
      replaceVarWithArrayInStmt vars s st = some (out, st') →
        RewrittenStmt vars s out ∧ st.Generates st'
  | .assign t e, st, out, st', h => by
      unfold replaceVarWithArrayInStmt at h
      split_ifs at h with ht
      · obtain ⟨_, -, h⟩ := Option.map_eq_some'.1 h
        cases h
        refine ⟨.race _ ht, ⟨_, rfl, by simp [IsSetitemSig, setitemSig]⟩, Nat.le_succ _, fun x => ?_⟩
        by_cases hx : x = constIndName st.counter
        · exact .inr ⟨st.counter, le_rfl, Nat.lt_succ_self _, hx, by simp [hx]⟩
        · exact .inl (Typemap.set_ne _ _ hx)
      · cases h
        exact ⟨.keep (by simp_all) (by simp), .refl _⟩
  | .parfor ls init body, st, out, st', h => by
      simp only [replaceVarWithArrayInStmt, Option.bind_eq_bind, Option.bind_eq_some,
        Prod.exists] at h
      obtain ⟨init', st₁, h₁, body', st₂, h₂, h⟩ := h
      cases h
      obtain ⟨hr₁, hg₁⟩ := replaceVarWithArrayInBlock_rewritten h₁
      obtain ⟨hr₂, hg₂⟩ := replaceVarWithArrayInternal_rewritten h₂
      exact ⟨.parfor hr₁ hr₂, hg₁.trans hg₂⟩
  | .setItem .., _, _, _, h | .staticSetItem .., _, _, _, h | .del _, _, _, _, h
  | .jump _, _, _, _, h | .branch .., _, _, _, h | .ret _, _, _, _, h | .other .., _, _, _, h => by
      cases h
      exact ⟨.keep (by simp) (by simp), .refl _⟩

theorem replaceVarWithArrayInBlock_rewritten :
    ∀ {b : Block} {st : PromoteState} {b' st'},
      replaceVarWithArrayInBlock vars b st = some (b', st') →
        RewrittenBlock vars b b' ∧ st.Generates st'
  | [], _, _, _, h => by cases h; exact ⟨.nil, .refl _⟩
  | s :: ss, st, b', st', h => by
      simp only [replaceVarWithArrayInBlock, Option.bind_eq_bind, Option.bind_eq_some,
        Prod.exists] at h
      obtain ⟨out, st₁, h₁, ss', st₂, h₂, h⟩ := h
      cases h
      obtain ⟨hr₁, hg₁⟩ := replaceVarWithArrayInStmt_rewritten h₁
      obtain ⟨hr₂, hg₂⟩ := replaceVarWithArrayInBlock_rewritten h₂
      exact ⟨.cons hr₁ hr₂, hg₁.trans hg₂⟩

theorem replaceVarWithArrayInternal_rewritten :
    ∀ {bs : Blocks} {st : PromoteState} {bs' st'},
      replaceVarWithArrayInternal vars bs st = some (bs', st') →
        RewrittenBlocks vars bs bs' ∧ st.Generates st'
  | [], _, _, _, h => by cases h; exact ⟨.nil, .refl _⟩
  | (l, b) :: bs, st, bs', st', h => by
      simp only [replaceVarWithArrayInternal, Option.bind_eq_bind, Option.bind_eq_some,
        Prod.exists] at h
      obtain ⟨b', st₁, h₁, bs'', st₂, h₂, h⟩ := h
      cases h
      obtain ⟨hr₁, hg₁⟩ := replaceVarWithArrayInBlock_rewritten h₁
      obtain ⟨hr₂, hg₂⟩ := replaceVarWithArrayInternal_rewritten h₂
      exact ⟨.cons hr₁ hr₂, hg₁.trans hg₂⟩
end

/-- The whole rewrite: the traversal, whose state only generated index variables, and then the
type promotion, which changes the typemap alone. -/
theorem replaceVarWithArray_rewritten {body body' : Blocks} {st st' : PromoteState}
    (h : replaceVarWithArray vars body st = some (body', st')) :
    RewrittenBlocks vars body body' ∧ ∃ st₁, st.Generates st₁ ∧
      promoteTypes vars st₁.typemap = some st'.typemap ∧ st'.calltypes = st₁.calltypes ∧
        st'.counter = st₁.counter := by
  simp only [replaceVarWithArray, Option.bind_eq_bind, Option.bind_eq_some, Prod.exists, pure,
    Option.some.injEq, Prod.mk.injEq] at h
  obtain ⟨b, st₁, h₁, tm, htm, rfl, rfl⟩ := h
  obtain ⟨hr, hg⟩ := replaceVarWithArrayInternal_rewritten h₁
  exact ⟨hr, st₁, hg, htm, rfl, rfl⟩

/-! The written arrays and the variables of an image, from the shape alone. -/

mutual
theorem RewrittenStmt.mem_findSetitems :
    ∀ {s out}, RewrittenStmt vars s out → ∀ x,
      x ∈ findSetitemsBlock out ↔ x ∈ findSetitemsStmt s ∨ x ∈ vars ∧ x ∈ s.assignTargets
  | _, _, .race _ hv, x => by
      simpa [findSetitemsBlock, findSetitemsStmt, Stmt.assignTargets] using fun h => h ▸ hv
  | _, _, .parfor hinit hbody, x => by
      simp only [findSetitemsBlock, findSetitemsStmt, Stmt.assignTargets, List.append_nil,
        List.mem_append, hinit.mem_findSetitems x, hbody.mem_findSetitems x]
      tauto
  | s, _, .keep hs _, x => by
      cases s <;> simp_all [findSetitemsBlock, findSetitemsStmt, Stmt.assignTargets]
      exact fun h h' => hs (h' ▸ h)

theorem RewrittenBlock.mem_findSetitems :
    ∀ {b b'}, RewrittenBlock vars b b' → ∀ x,
      x ∈ findSetitemsBlock b' ↔ x ∈ findSetitemsBlock b ∨ x ∈ vars ∧ x ∈ assignTargetsBlock b
  | _, _, .nil, x => by simp [findSetitemsBlock, assignTargetsBlock]
  | _, _, .cons hs hss, x => by
      simp only [findSetitemsBlock, assignTargetsBlock, findSetitemsBlock_append, List.mem_append,
        hs.mem_findSetitems x, hss.mem_findSetitems x]
      tauto

theorem RewrittenBlocks.mem_findSetitems :
    ∀ {b b'}, RewrittenBlocks vars b b' → ∀ x,
      x ∈ findSetitemsBody b' ↔ x ∈ findSetitemsBody b ∨ x ∈ vars ∧ x ∈ assignTargetsBlocks b
  | _, _, .nil, x => by simp [findSetitemsBody, assignTargetsBlocks]
  | _, _, .cons hb hbs, x => by
      simp only [findSetitemsBody, assignTargetsBlocks, List.mem_append,
        hb.mem_findSetitems x, hbs.mem_findSetitems x]
      tauto
end

mutual
theorem RewrittenStmt.vars_subset :
    ∀ {s out}, RewrittenStmt vars s out → s.vars ⊆ blockVars out
  | _, _, .race _ _ => fun x => by
      simp only [Stmt.vars, blockVars, Value.vars, List.mem_append, List.mem_cons]
      tauto
  | _, _, .parfor hinit hbody => fun x hx => by
      simp only [Stmt.vars, blockVars, List.append_nil, List.mem_append] at hx ⊢
      exact hx.imp (Or.imp_right (hinit.vars_subset ·)) (hbody.vars_subset ·)
  | _, _, .keep .. => by simp [blockVars]

theorem RewrittenBlock.vars_subset :
    ∀ {b b'}, RewrittenBlock vars b b' → blockVars b ⊆ blockVars b'
  | _, _, .nil => List.Subset.refl _
  | _, _, .cons hs hss => fun x hx => by
      simp only [blockVars, blockVars_append, List.mem_append] at hx ⊢
      exact hx.imp (hs.vars_subset ·) (hss.vars_subset ·)

theorem RewrittenBlocks.vars_subset :
    ∀ {b b'}, RewrittenBlocks vars b b' → blocksVars b ⊆ blocksVars b'
  | _, _, .nil => List.Subset.refl _
  | _, _, .cons hb hbs => fun x hx => by
      simp only [blocksVars, List.mem_append] at hx ⊢
      exact hx.imp (hb.vars_subset ·) (hbs.vars_subset ·)
end

mutual
theorem RewrittenStmt.mem_vars :
    ∀ {s out}, RewrittenStmt vars s out → ∀ x ∈ blockVars out,
      x ∈ s.vars ∨ ∃ n, x = constIndName n
  | _, _, .race n _, x, hx => by
      simp only [Stmt.vars, blockVars, Value.vars, List.mem_append, List.mem_cons] at hx ⊢
      rcases hx with (h | h) | (h | h | h) | h <;> simp_all
  | _, _, .parfor hinit hbody, x, hx => by
      simp only [Stmt.vars, blockVars, List.append_nil, List.mem_append] at hx ⊢
      rcases hx with (h | h) | h
      · exact .inl (.inl (.inl h))
      · exact (hinit.mem_vars x h).imp (fun h => .inl (.inr h)) id
      · exact (hbody.mem_vars x h).imp .inr id
  | _, _, .keep .., x, hx => .inl (by simpa [blockVars] using hx)

theorem RewrittenBlock.mem_vars :
    ∀ {b b'}, RewrittenBlock vars b b' → ∀ x ∈ blockVars b',
      x ∈ blockVars b ∨ ∃ n, x = constIndName n
  | _, _, .nil, _, hx => absurd hx (List.not_mem_nil _)
  | _, _, .cons hs hss, x, hx => by
      simp only [blockVars, blockVars_append, List.mem_append] at hx ⊢
      rcases hx with h | h
      · exact (hs.mem_vars x h).imp .inl id
      · exact (hss.mem_vars x h).imp .inr id

theorem RewrittenBlocks.mem_vars :
    ∀ {b b'}, RewrittenBlocks vars b b' → ∀ x ∈ blocksVars b',
      x ∈ blocksVars b ∨ ∃ n, x = constIndName n
  | _, _, .nil, _, hx => absurd hx (List.not_mem_nil _)
  | _, _, .cons hb hbs, x, hx => by
      simp only [blocksVars, List.mem_append] at hx ⊢
      rcases hx with h | h
      · exact (hb.mem_vars x h).imp .inl id
      · exact (hbs.mem_vars x h).imp .inr id
end

/-- `remove_dels` keeps every assignment. -/
@[simp] theorem assignTargetsBlocks_removeDels (bs : Blocks) :
    assignTargetsBlocks (removeDels bs) = assignTargetsBlocks bs := by
  have hb : ∀ b : Block,
      assignTargetsBlock (b.filter fun s => !s.isDel) = assignTargetsBlock b := by
    intro b
    induction b with
    | nil => rfl
    | cons s ss ih =>
        cases s
        case del => exact ih
        all_goals exact congrArg (Stmt.assignTargets _ ++ ·) ih
  induction bs with
  | nil => rfl
  | cons p bs ih =>
      obtain ⟨l, b⟩ := p
      simp only [removeDels, List.map_cons, assignTargetsBlocks, hb] at ih ⊢
      rw [ih]

end Shape

/-! ### The type promotion -/

end ParforOffload
