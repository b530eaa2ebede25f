/-
**The shape signature of the kernel: `_create_shape_signature`.**

`_lower_parfor_gufunc` asks `_create_shape_signature` for one tuple of symbols per argument of the
kernel, a symbol per dimension, which `generate_kernel_launch_ops` zips with the arguments.  The
builder reads the shape classes of `args[1:]` (a race variable gets the class `-1`), forces the
class `max + 1` onto a `sched` entry put in front, gives the non-negative classes the letters
`'a', 'b', …` in the order the set of classes is iterated, and gives every negative class a letter
of its own past those, bumping a counter before each one.

The caller passes `func_args`, which has no `sched` element: the loop `zip(classes, args)` pairs the
schedule's class with `args[0]`, and the classes of `args[0]` are never read.

Main definitions:

* `ParforOffload.createShapeSignature` — the builder, with `buildClassMap`, `bumpAlpha` and the
  counter-threading loop `mapAlpha`;
* `ParforOffload.SetOrder` — the iteration order of a Python `set`, left open;
* `ParforOffload.SignatureOK` — what a signature should be for the classes of its entries.

Main results:

* `ParforOffload.createShapeSignature_spec` — for every non-empty argument list whose classes fit
  the code points, the builder returns, and its signature is `SignatureOK` for the `sched` class
  followed by the classes of `args[1:]`;
* `ParforOffload.createShapeSignature_single_arg` — the signature of a single argument is the one
  entry `('a',)`, whatever the classes of that argument.
-/

import Mathlib.Data.List.Dedup
import Mathlib.Data.List.Forall2
import Mathlib.Data.List.Perm.Basic

set_option autoImplicit false

namespace ParforOffload

/-! ### The builder -/

/-- `chr(i)`: the character of code point `i`, kept as the code point; a `ValueError` from
`0x110000` on. -/
def chr (i : Nat) : Except String Nat :=
  if i < 0x110000 then .ok i else .error "chr() arg not in range(0x110000)"

/-- The order in which `for n in class_set` visits a Python `set` of integers built by adding the
elements of a list in turn.  CPython's order follows the hashes and the size of the table; the
model leaves it open, and asks only that each element be visited once. -/
structure SetOrder where
  iter : List Int → List Int
  perm_dedup : ∀ l, (iter l).Perm l.dedup

/-- `[get_shape_classes(var) if var not in races else (-1,) for var in args[1:]]`, with `typemap`
applied in `getShapeClasses`. -/
def argClasses (getShapeClasses : String → List Int) (races args : List String) :
    List (List Int) :=
  (args.drop 1).map fun var => if var ∈ races then [-1] else getShapeClasses var

/-- `max(class_set) + 1 if class_set else 0`. -/
def maxClass (classSet : List Int) : Int :=
  match classSet.max? with
  | some m => m + 1
  | none => 0

/-- `classes.insert(0, (max_class,))`: the class of the `sched` argument, in front. -/
def schedClasses (classes : List (List Int)) : List (List Int) :=
  [maxClass classes.flatten] :: classes

/-- The loop `for n in class_set: if n >= 0: class_map[n] = chr(alphabet); alphabet += 1`, from a
`class_map` and an `alphabet`; it returns both. -/
def buildClassMap :
    List Int → (Int → Option Nat) → Nat → Except String ((Int → Option Nat) × Nat)
  | [], classMap, alphabet => .ok (classMap, alphabet)
  | n :: ns, classMap, alphabet =>
    if 0 ≤ n then do
      let c ← chr alphabet
      buildClassMap ns (fun k => if k = n then some c else classMap k) (alphabet + 1)
    else buildClassMap ns classMap alphabet

/-- `bump_alpha(c, class_map)`, with `alpha_dict["latest_alpha"]` passed in and returned; a class
missing from `class_map` is its `KeyError`. -/
def bumpAlpha (classMap : Int → Option Nat) (c : Int) (latestAlpha : Nat) :
    Except String (Nat × Nat) :=
  if 0 ≤ c then
    match classMap c with
    | some s => .ok (s, latestAlpha)
    | none => .error "KeyError"
  else do
    let s ← chr (latestAlpha + 1)
    pure (s, latestAlpha + 1)

/-- A loop that maps each element through a step that reads and bumps `latest_alpha`: the
generator `tuple(bump_alpha(c, class_map) for c in cls)`, and the loop over `zip(classes, args)`
that appends each `dim_syms` to `gu_sin`. -/
def mapAlpha {α β : Type} (f : α → Nat → Except String (β × Nat)) :
    List α → Nat → Except String (List β × Nat)
  | [], latestAlpha => .ok ([], latestAlpha)
  | a :: as, latestAlpha => do
    let (b, latestAlpha) ← f a latestAlpha
    let (bs, latestAlpha) ← mapAlpha f as latestAlpha
    pure (b :: bs, latestAlpha)

/-- `_create_shape_signature(get_shape_classes, num_inputs, args, func_sig, races, typemap)`,
which returns `(gu_sin, gu_sout)`.  `num_inputs` and `func_sig` are not read. -/
def createShapeSignature (order : SetOrder) (getShapeClasses : String → List Int)
    (args races : List String) : Except String (List (List Nat) × List (List Nat)) := do
  let classes := argClasses getShapeClasses races args
  let classSet := classes.flatten ++ [maxClass classes.flatten]
  let (classMap, alphabet) ← buildClassMap (order.iter classSet) (fun _ => none) (97 : Nat)
  let (guSin, _) ← mapAlpha (mapAlpha (bumpAlpha classMap))
    (((schedClasses classes).zip args).map Prod.fst) alphabet
  pure (guSin, [])

/-! ### What the signature should be -/

/-- What a signature `gu_sin` should be for the classes of its entries: one entry per class
tuple with one symbol per class; a first entry of one symbol, found in no other entry; symbols of
non-negative classes equal exactly when the classes are; and the symbol of a negative class found
once in the whole signature. -/
structure SignatureOK (classes : List (List Int)) (guSin : List (List Nat)) : Prop where
  lengths : List.Forall₂ (fun cls syms => syms.length = cls.length) classes guSin
  first_fresh : ∃ s, guSin.head? = some [s] ∧ ∀ e ∈ guSin.tail, s ∉ e
  nonneg_iff : ∀ p ∈ classes.flatten.zip guSin.flatten, ∀ q ∈ classes.flatten.zip guSin.flatten,
    0 ≤ p.1 → 0 ≤ q.1 → (p.2 = q.2 ↔ p.1 = q.1)
  negative_once : ∀ p ∈ classes.flatten.zip guSin.flatten, p.1 < 0 → guSin.flatten.count p.2 = 1

/-- The symbols `bump_alpha` gives the classes `cs` in turn from `latest_alpha = latestAlpha`, when
every lookup in `class_map` succeeds. -/
def alphaSyms (classMap : Int → Option Nat) : List Int → Nat → List Nat
  | [], _ => []
  | c :: cs, latestAlpha =>
    if 0 ≤ c then (classMap c).getD 0 :: alphaSyms classMap cs latestAlpha
    else (latestAlpha + 1) :: alphaSyms classMap cs (latestAlpha + 1)

/-! ### `class_map` -/

section ClassMap

theorem chr_of_lt {i : Nat} (h : i < 0x110000) : chr i = .ok i := if_pos h

/-- What the loop building `class_map` keeps: the letters given so far are distinct, and below
the next one. -/
structure ClassMapInv (classMap : Int → Option Nat) (alphabet : Nat) : Prop where
  lt : ∀ k s, classMap k = some s → s < alphabet
  inj : ∀ k k' s, classMap k = some s → classMap k' = some s → k = k'

theorem ClassMapInv.empty (alphabet : Nat) : ClassMapInv (fun _ => none) alphabet :=
  ⟨fun _ _ h => (nomatch h), fun _ _ _ h => (nomatch h)⟩

/-- Giving a class the next letter keeps the invariant. -/
theorem ClassMapInv.update {classMap : Int → Option Nat} {alphabet : Nat}
    (h : ClassMapInv classMap alphabet) (n : Int) :
    ClassMapInv (fun k => if k = n then some alphabet else classMap k) (alphabet + 1) where
  lt k s hk := by
    split at hk
    · cases hk; omega
    · exact Nat.lt_succ_of_lt (h.lt k s hk)
  inj k k' s hk hk' := by
    split at hk <;> split at hk'
    · simp_all
    · cases hk; exact absurd (h.lt _ _ hk') (lt_irrefl _)
    · cases hk'; exact absurd (h.lt _ _ hk) (lt_irrefl _)
    · exact h.inj k k' s hk hk'

theorem ClassMapInv.getD_le {classMap : Int → Option Nat} {alphabet latestAlpha : Nat}
    (h : ClassMapInv classMap alphabet) (ha : alphabet ≤ latestAlpha + 1) (c : Int) :
    (classMap c).getD 0 ≤ latestAlpha := by
  cases hc : classMap c with
  | none => exact Nat.zero_le _
  | some s => have := h.lt c s hc; simp only [Option.getD_some]; omega

/-- **The loop building `class_map`.**  While the letters stay code points it returns, one letter
past the last for each non-negative class it visits; the map keeps the invariant and knows the
keys it had and every non-negative class visited. -/
theorem buildClassMap_ok : ∀ (ns : List Int) (classMap : Int → Option Nat) (alphabet : Nat),
    ClassMapInv classMap alphabet → alphabet + ns.countP (0 ≤ ·) ≤ 0x110000 →
    ∃ classMap', buildClassMap ns classMap alphabet =
        .ok (classMap', alphabet + ns.countP (0 ≤ ·)) ∧
      ClassMapInv classMap' (alphabet + ns.countP (0 ≤ ·)) ∧
      ∀ k, (classMap k).isSome ∨ (0 ≤ k ∧ k ∈ ns) → (classMap' k).isSome
  | [], classMap, alphabet, h, _ => ⟨classMap, rfl, h, by simp⟩
  | n :: ns, classMap, alphabet, h, hb => by
    by_cases hn : 0 ≤ n
    · have hcount : (n :: ns).countP (0 ≤ ·) = ns.countP (0 ≤ ·) + 1 := by
        simp [List.countP_cons, hn]
      rw [hcount] at hb ⊢
      obtain ⟨classMap', hrun, hinv, hdom⟩ :=
        buildClassMap_ok ns _ (alphabet + 1) (h.update n) (by omega)
      rw [Nat.add_right_comm] at hrun hinv
      refine ⟨classMap', ?_, hinv, fun k hk => hdom k ?_⟩
      · rw [buildClassMap, if_pos hn, chr_of_lt (by omega)]
        exact hrun
      · by_cases hkn : k = n
        · simp [hkn]
        · simp only [hkn, if_false, List.mem_cons, false_or] at hk ⊢
          exact hk
    · have hcount : (n :: ns).countP (0 ≤ ·) = ns.countP (0 ≤ ·) := by
        simp [List.countP_cons, hn]
      rw [hcount] at hb ⊢
      obtain ⟨classMap', hrun, hinv, hdom⟩ := buildClassMap_ok ns classMap alphabet h hb
      refine ⟨classMap', by rw [buildClassMap, if_neg hn]; exact hrun, hinv, fun k hk => hdom k ?_⟩
      rcases hk with hk | ⟨hk0, hk⟩
      · exact .inl hk
      · rcases List.mem_cons.1 hk with rfl | hk
        · exact absurd hk0 hn
        · exact .inr ⟨hk0, hk⟩

end ClassMap

/-! ### The loops threading `latest_alpha` -/

section Loops

variable {α β : Type} (f : α → Nat → Except String (β × Nat))

theorem mapAlpha_cons_ok {a : α} {as : List α} {n n'' : Nat} {out : List β} :
    mapAlpha f (a :: as) n = .ok (out, n'') ↔
      ∃ b n' bs, f a n = .ok (b, n') ∧ mapAlpha f as n' = .ok (bs, n'') ∧ out = b :: bs := by
  constructor
  · intro h
    simp only [mapAlpha, bind, Except.bind, pure, Except.pure] at h
    split at h
    · cases h
    · split at h
      · cases h
      · cases h
        exact ⟨_, _, _, ‹_›, ‹_›, rfl⟩
  · rintro ⟨b, n', bs, hb, hbs, rfl⟩
    simp [mapAlpha, bind, Except.bind, hb, hbs, pure, Except.pure]

/-- A relation each step makes between what it reads and what it gives holds along the loop. -/
theorem mapAlpha_forall₂ (R : α → β → Prop) (hf : ∀ a n b n', f a n = .ok (b, n') → R a b) :
    ∀ {l : List α} {n n' : Nat} {out : List β}, mapAlpha f l n = .ok (out, n') →
      List.Forall₂ R l out
  | [], _, _, _, h => by
    simp only [mapAlpha, Except.ok.injEq, Prod.mk.injEq] at h
    exact h.1 ▸ .nil
  | _ :: _, _, _, _, h => by
    obtain ⟨b, _, bs, hb, hbs, rfl⟩ := (mapAlpha_cons_ok f).1 h
    exact .cons (hf _ _ _ _ hb) (mapAlpha_forall₂ R hf hbs)

theorem mapAlpha_append_ok : ∀ {l₁ l₂ : List α} {n n'' : Nat} {out : List β},
    mapAlpha f (l₁ ++ l₂) n = .ok (out, n'') →
      ∃ o₁ n' o₂, mapAlpha f l₁ n = .ok (o₁, n') ∧ mapAlpha f l₂ n' = .ok (o₂, n'') ∧
        out = o₁ ++ o₂
  | [], _, n, _, out, h => ⟨[], n, out, rfl, h, rfl⟩
  | _ :: _, _, _, _, _, h => by
    obtain ⟨b, m, bs, hb, hbs, rfl⟩ := (mapAlpha_cons_ok f).1 h
    obtain ⟨o₁, n', o₂, h₁, h₂, rfl⟩ := mapAlpha_append_ok hbs
    exact ⟨b :: o₁, n', o₂, (mapAlpha_cons_ok f).2 ⟨b, m, o₁, hb, h₁, rfl⟩, h₂, rfl⟩

/-- The nested loop over the entries gives, flattened, what the loop over all their elements
gives. -/
theorem mapAlpha_flatten : ∀ {ls : List (List α)} {n n' : Nat} {out : List β},
    mapAlpha f ls.flatten n = .ok (out, n') →
      ∃ outs, mapAlpha (mapAlpha f) ls n = .ok (outs, n') ∧ outs.flatten = out
  | [], _, _, _, h => by
    simp only [List.flatten_nil, mapAlpha, Except.ok.injEq, Prod.mk.injEq] at h
    exact ⟨[], by rw [h.2]; rfl, h.1⟩
  | _ :: _, _, _, _, h => by
    obtain ⟨o₁, m, o₂, h₁, h₂, rfl⟩ := mapAlpha_append_ok f h
    obtain ⟨outs, h', rfl⟩ := mapAlpha_flatten h₂
    exact ⟨o₁ :: outs, (mapAlpha_cons_ok _).2 ⟨o₁, m, outs, h₁, h', rfl⟩, rfl⟩

end Loops

/-! ### The symbols of `bump_alpha` -/

section Symbols

variable {classMap : Int → Option Nat}

/-- **The loop of `bump_alpha`.**  When every non-negative class is in `class_map` and the bumped
letters stay code points, the loop returns the symbols `alphaSyms`. -/
theorem mapAlpha_bumpAlpha : ∀ (cs : List Int) (latestAlpha : Nat),
    (∀ c ∈ cs, 0 ≤ c → (classMap c).isSome) → latestAlpha + cs.countP (· < 0) < 0x110000 →
    ∃ n, mapAlpha (bumpAlpha classMap) cs latestAlpha = .ok (alphaSyms classMap cs latestAlpha, n)
  | [], _, _, _ => ⟨_, rfl⟩
  | c :: cs, latestAlpha, hdom, hb => by
    have hdom' := fun c' hc' => hdom c' (List.mem_cons_of_mem c hc')
    by_cases hc : 0 ≤ c
    · obtain ⟨s, hs⟩ := Option.isSome_iff_exists.1 (hdom c (List.mem_cons_self _ _) hc)
      obtain ⟨n, hrun⟩ := mapAlpha_bumpAlpha cs latestAlpha hdom'
        (by simpa [List.countP_cons, not_lt.2 hc] using hb)
      refine ⟨n, (mapAlpha_cons_ok _).2 ⟨s, latestAlpha, _, ?_, hrun, ?_⟩⟩
      · simp [bumpAlpha, hc, hs]
      · simp [alphaSyms, hc, hs]
    · have hcount : (c :: cs).countP (· < 0) = cs.countP (· < 0) + 1 := by
        simp [List.countP_cons, lt_of_not_le hc]
      have hb' : latestAlpha + 1 + cs.countP (· < 0) < 0x110000 := by omega
      have hchr : chr (latestAlpha + 1) = .ok (latestAlpha + 1) := chr_of_lt (by omega)
      obtain ⟨n, hrun⟩ := mapAlpha_bumpAlpha cs (latestAlpha + 1) hdom' hb'
      refine ⟨n, (mapAlpha_cons_ok _).2 ⟨latestAlpha + 1, latestAlpha + 1, _, ?_, hrun, ?_⟩⟩
      · simp [bumpAlpha, hc, bind, Except.bind, pure, Except.pure, hchr]
      · simp [alphaSyms, hc]

/-- A non-negative class gets its letter in `class_map`. -/
theorem getD_of_mem_zip_alphaSyms : ∀ {cs : List Int} {latestAlpha : Nat} {p : Int × Nat},
    p ∈ cs.zip (alphaSyms classMap cs latestAlpha) → 0 ≤ p.1 → (classMap p.1).getD 0 = p.2
  | [], _, _, hp, _ => by simp [alphaSyms] at hp
  | c :: cs, _, _, hp, hc => by
    unfold alphaSyms at hp
    split at hp <;> rcases List.mem_cons.1 hp with rfl | hp
    · rfl
    · exact getD_of_mem_zip_alphaSyms hp hc
    · contradiction
    · exact getD_of_mem_zip_alphaSyms hp hc

/-- A negative class gets a letter past `latest_alpha`. -/
theorem lt_of_mem_zip_alphaSyms : ∀ {cs : List Int} {latestAlpha : Nat} {p : Int × Nat},
    p ∈ cs.zip (alphaSyms classMap cs latestAlpha) → p.1 < 0 → latestAlpha < p.2
  | [], _, _, hp, _ => by simp [alphaSyms] at hp
  | c :: cs, _, _, hp, hc => by
    unfold alphaSyms at hp
    split at hp <;> rcases List.mem_cons.1 hp with rfl | hp
    · exact absurd hc (not_lt.2 ‹_›)
    · exact lt_of_mem_zip_alphaSyms hp hc
    · exact Nat.lt_succ_self _
    · exact Nat.lt_of_succ_lt (lt_of_mem_zip_alphaSyms hp hc)

theorem not_mem_alphaSyms {x : Nat} (hx : ∀ c, (classMap c).getD 0 ≠ x) :
    ∀ (cs : List Int) (latestAlpha : Nat), x ≤ latestAlpha → x ∉ alphaSyms classMap cs latestAlpha
  | [], _, _ => List.not_mem_nil x
  | c :: cs, latestAlpha, hle => by
    unfold alphaSyms
    split <;> rw [List.mem_cons, not_or]
    · exact ⟨(hx c).symm, not_mem_alphaSyms hx cs latestAlpha hle⟩
    · exact ⟨by omega, not_mem_alphaSyms hx cs (latestAlpha + 1) (by omega)⟩

variable {alphabet : Nat} (hinv : ClassMapInv classMap alphabet)
include hinv

/-- **A negative class's symbol is found once.** -/
theorem count_alphaSyms_of_neg : ∀ {cs : List Int} {latestAlpha : Nat},
    alphabet ≤ latestAlpha + 1 → ∀ p ∈ cs.zip (alphaSyms classMap cs latestAlpha), p.1 < 0 →
      (alphaSyms classMap cs latestAlpha).count p.2 = 1
  | [], _, _, p, hp, _ => by simp [alphaSyms] at hp
  | c :: cs, latestAlpha, ha, p, hp, hneg => by
    by_cases hc : 0 ≤ c
    · rw [alphaSyms, if_pos hc, List.zip_cons_cons, List.mem_cons] at hp
      rw [alphaSyms, if_pos hc]
      rcases hp with rfl | hp
      · exact absurd hc (not_le.2 hneg)
      · have hlt := lt_of_mem_zip_alphaSyms hp hneg
        have hle := hinv.getD_le ha c
        rw [List.count_cons, count_alphaSyms_of_neg ha p hp hneg, if_neg (by simp; omega)]
    · rw [alphaSyms, if_neg hc, List.zip_cons_cons, List.mem_cons] at hp
      rw [alphaSyms, if_neg hc]
      rcases hp with rfl | hp
      · have hfresh : ∀ k, (classMap k).getD 0 ≠ latestAlpha + 1 := fun k => by
          have := hinv.getD_le ha k
          omega
        rw [List.count_cons_self, List.count_eq_zero.2 (not_mem_alphaSyms hfresh cs _ le_rfl)]
      · have hlt := lt_of_mem_zip_alphaSyms hp hneg
        rw [List.count_cons, count_alphaSyms_of_neg (by omega) p hp hneg, if_neg (by simp; omega)]

/-- **Non-negative classes get equal symbols exactly when they are equal.** -/
theorem alphaSyms_eq_iff {cs : List Int} {latestAlpha : Nat}
    (hdom : ∀ c ∈ cs, 0 ≤ c → (classMap c).isSome) {p q : Int × Nat}
    (hp : p ∈ cs.zip (alphaSyms classMap cs latestAlpha))
    (hq : q ∈ cs.zip (alphaSyms classMap cs latestAlpha)) (hp0 : 0 ≤ p.1) (hq0 : 0 ≤ q.1) :
    p.2 = q.2 ↔ p.1 = q.1 := by
  obtain ⟨c, x⟩ := p
  obtain ⟨d, y⟩ := q
  obtain ⟨s, hs⟩ := Option.isSome_iff_exists.1 (hdom c (List.of_mem_zip hp).1 hp0)
  obtain ⟨t, ht⟩ := Option.isSome_iff_exists.1 (hdom d (List.of_mem_zip hq).1 hq0)
  obtain rfl : s = x := by simpa [hs] using getD_of_mem_zip_alphaSyms hp hp0
  obtain rfl : t = y := by simpa [ht] using getD_of_mem_zip_alphaSyms hq hq0
  show s = t ↔ c = d
  exact ⟨fun h => hinv.inj c d _ hs (h ▸ ht), fun h => Option.some.inj (hs.symm.trans (h ▸ ht))⟩

/-- **A non-negative class's symbol is found as often as the class.** -/
theorem count_alphaSyms_of_nonneg {c : Int} {s : Nat} (hc : 0 ≤ c) (hs : classMap c = some s) :
    ∀ {cs : List Int} {latestAlpha : Nat}, alphabet ≤ latestAlpha + 1 →
      (∀ c ∈ cs, 0 ≤ c → (classMap c).isSome) →
      (alphaSyms classMap cs latestAlpha).count s = cs.count c
  | [], _, _, _ => rfl
  | c' :: cs, latestAlpha, ha, hdom => by
    have hdom' := fun c'' hc'' => hdom c'' (List.mem_cons_of_mem c' hc'')
    have hsle := hinv.getD_le ha c
    rw [hs, Option.getD_some] at hsle
    unfold alphaSyms
    split
    · next hc' =>
      obtain ⟨s', hs'⟩ := Option.isSome_iff_exists.1 (hdom c' (List.mem_cons_self _ _) hc')
      have hiff : s' = s ↔ c' = c :=
        ⟨fun h => hinv.inj c' c s (h ▸ hs') hs, fun h => Option.some.inj (hs'.symm.trans (h ▸ hs))⟩
      rw [hs', Option.getD_some, List.count_cons, List.count_cons,
        count_alphaSyms_of_nonneg hc hs ha hdom']
      simp only [beq_iff_eq, hiff]
    · next hc' =>
      have hne : c' ≠ c := fun h => hc' (h ▸ hc)
      rw [List.count_cons, List.count_cons, count_alphaSyms_of_nonneg hc hs (by omega) hdom']
      simp only [beq_iff_eq, hne, if_false]
      rw [if_neg (by omega)]

/-- **A class found once gets a symbol found once.** -/
theorem count_alphaSyms_of_count_one {cs : List Int} {latestAlpha : Nat}
    (ha : alphabet ≤ latestAlpha + 1) (hdom : ∀ c ∈ cs, 0 ≤ c → (classMap c).isSome)
    {p : Int × Nat} (hp : p ∈ cs.zip (alphaSyms classMap cs latestAlpha))
    (hone : cs.count p.1 = 1) :
    (alphaSyms classMap cs latestAlpha).count p.2 = 1 := by
  by_cases hp0 : 0 ≤ p.1
  · obtain ⟨s, hs⟩ := Option.isSome_iff_exists.1 (hdom p.1 (List.of_mem_zip hp).1 hp0)
    have hsp : s = p.2 := by simpa [hs] using getD_of_mem_zip_alphaSyms hp hp0
    rw [← hsp, count_alphaSyms_of_nonneg hinv hp0 hs ha hdom, hone]
  · exact count_alphaSyms_of_neg hinv ha p hp (lt_of_not_le hp0)

end Symbols

/-! ### The signature -/

section Signature

theorem lt_maxClass {l : List Int} {x : Int} (hx : x ∈ l) : x < maxClass l := by
  unfold maxClass
  split
  · next m hm =>
    exact Int.lt_add_one_of_le ((List.max?_le_iff (fun _ _ _ => Int.max_le) hm).1 le_rfl x hx)
  · next hm => simp_all

theorem countP_nonneg_add_countP_neg (l : List Int) :
    l.countP (0 ≤ ·) + l.countP (· < 0) = l.length := by
  induction l with
  | nil => rfl
  | cons c l ih =>
    by_cases hc : 0 ≤ c
    · simp [List.countP_cons, hc, not_lt.2 hc]; omega
    · simp [List.countP_cons, hc, lt_of_not_le hc]; omega

/-- **What `_create_shape_signature` returns.**  For a non-empty argument list whose classes fit
the code points, the builder returns a signature that is `SignatureOK` for the class of `sched`
followed by the classes of `args[1:]`: one entry per argument, the first being the schedule's
symbol, found in no other entry, and entry `i ≥ 1` having one symbol per class of `args[i]`. -/
theorem createShapeSignature_spec (order : SetOrder) (getShapeClasses : String → List Int)
    (args races : List String) (hargs : args ≠ [])
    (hbound : (argClasses getShapeClasses races args).flatten.length + 98 < 0x110000) :
    ∃ guSin, createShapeSignature order getShapeClasses args races = .ok (guSin, []) ∧
      SignatureOK (schedClasses (argClasses getShapeClasses races args)) guSin := by
  set classes := argClasses getShapeClasses races args with hclasses
  set mc := maxClass classes.flatten with hmc
  have hflat : (schedClasses classes).flatten = mc :: classes.flatten := rfl
  -- `class_map` gives a letter to each non-negative class, and the letters stay code points.
  have hk : (order.iter (classes.flatten ++ [mc])).countP (0 ≤ ·) ≤
      (mc :: classes.flatten).countP (0 ≤ ·) := by
    rw [(order.perm_dedup _).countP_eq, ← (List.perm_append_singleton mc _).countP_eq]
    exact (List.dedup_sublist _).countP_le _
  have hsplit := countP_nonneg_add_countP_neg (mc :: classes.flatten)
  rw [List.length_cons] at hsplit
  obtain ⟨classMap, hcm, hinv, hdom⟩ := buildClassMap_ok (order.iter (classes.flatten ++ [mc]))
    (fun _ => none) 97 (ClassMapInv.empty 97) (by omega)
  have hmapped : ∀ c ∈ mc :: classes.flatten, 0 ≤ c → (classMap c).isSome := fun c hc hc0 =>
    hdom c (.inr ⟨hc0, (order.perm_dedup _).mem_iff.2
      (List.mem_dedup.2 ((List.perm_append_singleton mc _).mem_iff.2 hc))⟩)
  -- The loop of `bump_alpha` over the entries.
  set A := 97 + (order.iter (classes.flatten ++ [mc])).countP (0 ≤ ·) with hA
  have hAb : A + (mc :: classes.flatten).countP (· < 0) < 0x110000 := by rw [hA]; omega
  obtain ⟨n, hrun⟩ := mapAlpha_bumpAlpha (mc :: classes.flatten) A hmapped hAb
  obtain ⟨guSin, hsin, hsyms⟩ :=
    @mapAlpha_flatten Int Nat (bumpAlpha classMap) (schedClasses classes) _ _ _ hrun
  have hzip : ((schedClasses classes).zip args).map Prod.fst = schedClasses classes := by
    obtain ⟨a, as, rfl⟩ := List.exists_cons_of_ne_nil hargs
    exact List.map_fst_zip _ _ (by simp [schedClasses, hclasses, argClasses])
  have hlen :
      List.Forall₂ (fun cls syms => syms.length = cls.length) (schedClasses classes) guSin :=
    mapAlpha_forall₂ (mapAlpha (bumpAlpha classMap)) _ (fun _ _ _ _ h =>
      (mapAlpha_forall₂ (bumpAlpha classMap) (fun _ _ => True) (fun _ _ _ _ _ => trivial)
        h).length_eq.symm) hsin
  refine ⟨guSin, ?_, hlen, ?_, ?_, ?_⟩
  · simp only [createShapeSignature, ← hclasses, ← hmc, hcm, bind, Except.bind, hzip, hsin, pure,
      Except.pure]
  · -- The schedule's symbol is found once.
    obtain _ | @⟨_, _, _, rest, he₀, -⟩ := hlen
    obtain ⟨s, rfl⟩ := List.length_eq_one.1 he₀
    have hp :
        (mc, s) ∈ (mc :: classes.flatten).zip (alphaSyms classMap (mc :: classes.flatten) A) := by
      rw [← hsyms]; exact List.mem_cons_self _ _
    have hone : (alphaSyms classMap (mc :: classes.flatten) A).count s = 1 :=
      count_alphaSyms_of_count_one hinv (Nat.le_succ _) hmapped hp
      (by rw [List.count_cons_self, List.count_eq_zero.2 fun h => lt_irrefl _ (lt_maxClass h)])
    rw [← hsyms, List.flatten_cons, List.singleton_append, List.count_cons_self] at hone
    refine ⟨s, rfl, fun e he hse => ?_⟩
    have := List.count_pos_iff.2 (List.mem_flatten.2 ⟨e, he, hse⟩ : s ∈ rest.flatten)
    omega
  · intro p hp q hq hp0 hq0
    rw [hflat, hsyms] at hp hq
    exact alphaSyms_eq_iff hinv hmapped hp hq hp0 hq0
  · rintro ⟨c, x⟩ hp (hc : c < 0)
    rw [hflat, hsyms] at hp
    rw [hsyms]
    exact count_alphaSyms_of_neg hinv (Nat.le_succ _) _ hp hc

theorem createShapeSignature_spec_threeArgs :
    ["x", "y", "z"] ≠ [] ∧
      (argClasses (fun _ => [0, 1]) ["z"] ["x", "y", "z"]).flatten.length + 98 < 0x110000 ∧
      ∃ guSin, createShapeSignature ⟨List.dedup, fun _ => List.Perm.refl _⟩ (fun _ => [0, 1])
          ["x", "y", "z"] ["z"] = .ok (guSin, []) ∧
        SignatureOK (schedClasses (argClasses (fun _ => [0, 1]) ["z"] ["x", "y", "z"])) guSin :=
  ⟨by decide, by decide, createShapeSignature_spec _ _ _ _ (by decide) (by decide)⟩

example : createShapeSignature ⟨List.dedup, fun _ => List.Perm.refl _⟩ (fun _ => [0, 1])
    ["x", "y", "z"] ["z"] = .ok ([[99], [97, 98], [101]], []) := rfl

/-- A single argument gets the one entry `('a',)` of `sched`, whatever its classes: the loop over
`zip(classes, args)` pairs the class of `sched` with `args[0]`, whose classes are never read. -/
theorem createShapeSignature_single_arg (order : SetOrder) (getShapeClasses : String → List Int)
    (arg : String) (races : List String) :
    createShapeSignature order getShapeClasses [arg] races = .ok ([[97]], []) := by
  have h : order.iter ((argClasses getShapeClasses races [arg]).flatten ++
      [maxClass (argClasses getShapeClasses races [arg]).flatten]) = [0] :=
    List.perm_singleton.1 (order.perm_dedup _)
  rw [createShapeSignature]
  simp only [h]
  rfl

end Signature

end ParforOffload
