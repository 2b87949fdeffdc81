import Mathlib.Data.List.Basic
import Silhouette.Proofs.Inference.Fold

/-!
# The fold as a recursion

`Inference.fold` goes down a bounded number of steps, and the bound is taken from the size of the
registry.  Here it is shown that the bound never shows, and why: the fold is a recursion that ends
by itself.

* `foldStep` is what one call does, with the calls below it left open; `foldWithin` iterates it.
* `Subfold` says which calls a call makes: on a set, not empty, of parts of its members.  Parts have
  lower ranks (`rank_lt_of_part`), and a rank does not change while the registry grows
  (`rank_grows`); so the largest rank in the set goes down.
* A call depends on nothing but the calls below it (`foldStep_congr`).  So every bound above the
  largest rank gives one outcome (`foldWithin_eq`), and the fold meets its own equation without a
  bound (`foldStep_fold`).
-/

set_option autoImplicit false

namespace Silhouette

namespace Registry

/-! ## Ranks -/

/-- The place of a node in the order of registration, counted from 1; a scalar stands before all
nodes. -/
def rank (r : Registry) : TypeId → Nat
  | .scalar _ => 0
  | .node id => r.ids.idxOf id + 1

/-- The largest rank in a set. -/
def topRank (r : Registry) (members : TypeSet) : Nat := (members.toList.map r.rank).foldr max 0

/-- A part of one of some types. -/
def PartOf (r : Registry) (members : TypeSet) (c : TypeId) : Prop :=
  ∃ m ∈ members, ∃ d, r.describe? m = some d ∧ c ∈ d.children

variable {r r' : Registry} {members : TypeSet} {id c : TypeId} {n : Nat}

theorem topRank_le_iff : r.topRank members ≤ n ↔ ∀ m ∈ members, r.rank m ≤ n := by
  rw [topRank]
  simp only [Ordered.mem_def]
  induction members.toList with
  | nil => simp
  | cons m l ih =>
    rw [List.map_cons, List.foldr_cons, Nat.max_le, ih, List.forall_mem_cons]

theorem rank_le_topRank (h : id ∈ members) : r.rank id ≤ r.topRank members :=
  topRank_le_iff.1 (Nat.le_refl _) id h

theorem idxOf_getElem_le {l : List NodeId} {i : Nat} (h : i < l.length) : l.idxOf l[i] ≤ i := by
  refine Nat.le_of_not_lt fun hi ↦ ?_
  have hne : (l[i] == l[i]) = false := List.not_of_lt_findIdx hi
  rw [beq_self_eq_true] at hne
  cases hne

theorem before_iff : r.Before n id ↔ r.Knows id ∧ r.rank id ≤ n := by
  cases id with
  | scalar k => exact iff_of_true trivial ⟨trivial, Nat.zero_le n⟩
  | node id =>
    constructor
    · intro h
      obtain ⟨i, hin, hi⟩ := h
      obtain ⟨hlt, rfl⟩ := List.getElem?_eq_some_iff.1 hi
      have hfirst : r.ids.idxOf r.ids[i] ≤ i := idxOf_getElem_le hlt
      exact ⟨mem_ids_iff.1 (List.getElem_mem hlt), Nat.lt_of_le_of_lt hfirst hin⟩
    · rintro ⟨hknown, hrank⟩
      exact ⟨_, hrank, List.getElem?_idxOf (mem_ids_iff.2 hknown)⟩

theorem rank_le_size (h : r.Knows id) : r.rank id ≤ r.size := (before_iff.1 h.before_size).2

/-- Ranks stay while the registry grows. -/
theorem rank_grows (hg : r.Grows r') (h : r.Knows id) : r'.rank id = r.rank id := by
  cases id with
  | scalar k => rfl
  | node id =>
    obtain ⟨l, hl⟩ := hg
    rw [rank, rank, ids, ← hl, List.map_append]
    exact congrArg (· + 1) (List.idxOf_append_of_mem (mem_ids_iff.2 h))

/-- **A part has a lower rank.** -/
theorem rank_lt_of_part (hr : r.WellFormed) {d : Descriptor} (hd : r.describe? id = some d)
    (hc : c ∈ d.children) : r.rank c < r.rank id := by
  obtain ⟨n, rfl, hn⟩ := describe?_eq_some_iff.1 hd
  have hbefore : r.Before (r.rank (.node n)) (.node n) := before_iff.2 ⟨⟨d, hn⟩, Nat.le_refl _⟩
  have hpart := (before_iff.1 (hbefore.part hr hd hc)).2
  have hpos := hbefore.pos hd
  omega

theorem PartOf.knows (hr : r.WellFormed) (h : r.PartOf members c) : r.Knows c := by
  obtain ⟨m, -, d, hd, hc⟩ := h
  exact hr.knows_part hd hc

end Registry

namespace Inference

open Registry

variable {r r' : Registry} {members parts : TypeSet}

/-! ## One step -/

/-- One call of the fold, with `fold` for the calls below it. -/
def foldStep (fold : TypeSet → Inference TypeId) (members : TypeSet) : Inference TypeId := do
  let r ← get
  match r.firstForeign? members with
  | some id => throw (.foreignMember id)
  | none =>
    match FoldRule.select r members with
    | .bottom => intern .bottom
    | .identity only => return only
    | .arrays items => mergeArrays fold items
    | .objects shapes => mergeObjects fold shapes
    | .optionalArrays items => orUndefined (← mergeArrays fold items)
    | .optionalObjects shapes => orUndefined (← mergeObjects fold shapes)
    | .mixed => mergeUnion members

theorem foldWithin_succ (height : Nat) :
    foldWithin (height + 1) = foldStep (foldWithin height) := by
  funext members
  rfl

/-- A call below a call: it is made when the registry has grown, on parts of the members, and the
largest rank in it is lower. -/
structure Subfold (r : Registry) (members : TypeSet) (r' : Registry) (parts : TypeSet) : Prop where
  grows : r.Grows r'
  wellFormed : r'.WellFormed
  nonempty : ∃ c, c ∈ parts
  partOf : ∀ c ∈ parts, r.PartOf members c
  lower : r'.topRank parts < r.topRank members

theorem subfold_of_parts (hr : r.WellFormed) (hg : r.Grows r') (hw : r'.WellFormed)
    (hne : ∃ c, c ∈ parts) (hparts : ∀ c ∈ parts, r.PartOf members c) :
    Subfold r members r' parts where
  grows := hg
  wellFormed := hw
  nonempty := hne
  partOf := hparts
  lower := by
    have hlt : ∀ c ∈ parts, r'.rank c < r.topRank members := by
      intro c hc
      obtain ⟨m, hm, d, hd, hcd⟩ := hparts c hc
      rw [rank_grows hg ((hparts c hc).knows hr)]
      exact Nat.lt_of_lt_of_le (rank_lt_of_part hr hd hcd) (rank_le_topRank hm)
    obtain ⟨c, hc⟩ := hne
    have hpos := hlt c hc
    have hle : r'.topRank parts ≤ r.topRank members - 1 :=
      topRank_le_iff.2 fun c hc ↦ Nat.le_sub_one_of_lt (hlt c hc)
    omega

theorem Subfold.knows (h : Subfold r members r' parts) (hr : r.WellFormed) :
    ∀ c ∈ parts, r'.Knows c :=
  fun c hc ↦ h.grows.knows ((h.partOf c hc).knows hr)

/-- The elements of lists are parts. -/
theorem subfold_items (hr : r.WellFormed) (hne : members.toList.filterMap r.item? ≠ []) :
    Subfold r members r (.ofList (members.toList.filterMap r.item?)) := by
  obtain ⟨c, hc⟩ := List.exists_mem_of_ne_nil _ hne
  refine subfold_of_parts hr (.refl r) hr ⟨c, Ordered.mem_ofList.2 hc⟩ fun c hc ↦ ?_
  obtain ⟨m, hm, hitem⟩ := List.mem_filterMap.1 (Ordered.mem_ofList.1 hc)
  exact ⟨m, hm, _, item?_eq_some_iff.1 hitem, List.mem_cons_self⟩

/-- The types of the fields under a key are parts. -/
theorem subfold_types (hr : r.WellFormed) {key : String}
    (hkey : key ∈ allKeys (members.toList.filterMap r.fields?)) (hg : r.Grows r')
    (hw : r'.WellFormed) :
    Subfold r members r' (.ofList (((members.toList.filterMap r.fields?).filterMap
      fun fields ↦ fields.get? key).map Field.type)) := by
  obtain ⟨fields, hfields, hkeys⟩ := List.mem_flatMap.1 (Ordered.mem_ofList.1 hkey)
  obtain ⟨f, hf⟩ := Fields.mem_keys.1 hkeys
  have hget : fields.get? key = some f := Fields.get?_eq_some_iff.2 hf
  have htype : f.type ∈ ((members.toList.filterMap r.fields?).filterMap
      fun fields ↦ fields.get? key).map Field.type :=
    List.mem_map_of_mem (List.mem_filterMap.2 ⟨fields, hfields, hget⟩)
  refine subfold_of_parts hr hg hw ⟨f.type, Ordered.mem_ofList.2 htype⟩ fun c hc ↦ ?_
  obtain ⟨f', hf', rfl⟩ := List.mem_map.1 (Ordered.mem_ofList.1 hc)
  obtain ⟨fields, hfields, hget⟩ := List.mem_filterMap.1 hf'
  obtain ⟨m, hm, hshape⟩ := List.mem_filterMap.1 hfields
  exact ⟨m, hm, _, fields?_eq_some_iff.1 hshape,
    Descriptor.mem_children_object (Fields.get?_eq_some_iff.1 hget)⟩

/-! ## A step depends on the calls below it -/

section Congr

variable {α β : Type}

/-- The registry grows and stays well-formed, whatever comes of a computation. -/
abbrev Extends (x : Inference α) (r : Registry) : Prop :=
  x.Ensures r (fun _ _ ↦ True) fun _ ↦ True

theorem bind_run_congr {x y : Inference α} (hxy : x.run r = y.run r) (f : α → Inference β) :
    (x >>= f).run r = (y >>= f).run r := by
  rw [run_bind, run_bind, hxy]

theorem mapM_run_congr {f g : α → Inference β} {l : List α} (hr : r.WellFormed)
    (hf : ∀ a ∈ l, ∀ r', r.Grows r' → r'.WellFormed →
      Extends (f a) r' ∧ (f a).run r' = (g a).run r') :
    (l.mapM f).run r = (l.mapM g).run r := by
  induction l generalizing r with
  | nil => rfl
  | cons a l ih =>
    obtain ⟨hx, hxy⟩ := hf a List.mem_cons_self r (.refl r) hr
    rw [List.mapM_cons, List.mapM_cons, run_bind, run_bind, ← hxy]
    rcases hrun : (f a).run r with ⟨e | b, r₁⟩
    · rfl
    · obtain ⟨hg₁, hw₁, -⟩ := hx.of_ok hrun
      have hrest := fun c hc r₂ (hg₂ : r₁.Grows r₂) ↦
        hf c (List.mem_cons_of_mem _ hc) r₂ (hg₁.trans hg₂)
      exact bind_run_congr (ih hw₁ hrest) _

end Congr

section Step

variable {f g : TypeSet → Inference TypeId}

/-- Two functions that give the same for the calls below a call. -/
def AgreeBelow (r : Registry) (members : TypeSet) (f g : TypeSet → Inference TypeId) : Prop :=
  ∀ r' parts, Subfold r members r' parts →
    Extends (f parts) r' ∧ (f parts).run r' = (g parts).run r'

theorem mergeArrays_run_congr (hr : r.WellFormed) (h : AgreeBelow r members f g)
    (hne : members.toList.filterMap r.item? ≠ []) :
    (mergeArrays f (members.toList.filterMap r.item?)).run r =
      (mergeArrays g (members.toList.filterMap r.item?)).run r :=
  bind_run_congr (h r _ (subfold_items hr hne)).2 _

theorem mergeObjects_run_congr (hr : r.WellFormed) (h : AgreeBelow r members f g) :
    (mergeObjects f (members.toList.filterMap r.fields?)).run r =
      (mergeObjects g (members.toList.filterMap r.fields?)).run r := by
  refine bind_run_congr (mapM_run_congr hr fun key hkey r' hg hw ↦ ?_) _
  obtain ⟨hx, hxy⟩ := h r' _ (subfold_types hr hkey hg hw)
  exact ⟨.bind hx fun _ _ _ hw' _ ↦ .pure hw' trivial, bind_run_congr hxy _⟩

theorem foldStep_foreign {id : NodeId} (h : r.firstForeign? members = some id) :
    (foldStep f members).run r = (.error (.foreignMember id), r) := by
  rw [foldStep, run_get_bind, h]
  rfl

/-- **A call depends on the calls below it only.** -/
theorem foldStep_congr (hr : r.WellFormed) (h : AgreeBelow r members f g) :
    (foldStep f members).run r = (foldStep g members).run r := by
  cases hforeign : r.firstForeign? members with
  | some id => rw [foldStep_foreign hforeign, foldStep_foreign hforeign]
  | none =>
    have hrule := FoldRule.select_cases hr (knows_of_firstForeign?_eq_none hforeign)
    rw [foldStep, foldStep, run_get_bind, run_get_bind, hforeign]
    dsimp only
    generalize FoldRule.select r members = rule at hrule ⊢
    cases rule with
    | bottom => rfl
    | identity only => rfl
    | arrays items =>
      obtain ⟨⟨rfl, hne⟩, -⟩ := hrule
      exact mergeArrays_run_congr hr h hne
    | objects shapes =>
      obtain ⟨⟨rfl, -⟩, -⟩ := hrule
      exact mergeObjects_run_congr hr h
    | optionalArrays items =>
      obtain ⟨⟨rfl, hne⟩, -⟩ := hrule
      exact bind_run_congr (mergeArrays_run_congr hr h hne) _
    | optionalObjects shapes =>
      obtain ⟨⟨rfl, -⟩, -⟩ := hrule
      exact bind_run_congr (mergeObjects_run_congr hr h) _
    | mixed => rfl

end Step

/-! ## The bound does not show -/

theorem foldWithin_extends {height : Nat} (hr : r.WellFormed) (hM : ∀ m ∈ members, r.Knows m)
    (h : r.topRank members < height) : Extends (foldWithin height members) r := by
  obtain ⟨n, rfl⟩ := Nat.exists_eq_succ_of_ne_zero (Nat.ne_of_gt (Nat.zero_lt_of_lt h))
  have hbefore : ∀ m ∈ members, r.Before n m := fun m hm ↦
    before_iff.2 ⟨hM m hm, Nat.le_of_lt_succ (Nat.lt_of_le_of_lt (rank_le_topRank hm) h)⟩
  exact (foldWithin_ensures n r members hr hbefore).imp (fun _ _ _ _ _ ↦ trivial) fun _ _ ↦ trivial

/-- **Bounds above the largest rank are all the same.** -/
theorem foldWithin_eq {height : Nat} : ∀ {r : Registry} {members : TypeSet} {height' : Nat},
    r.WellFormed → r.topRank members < height → r.topRank members < height' →
      (foldWithin height members).run r = (foldWithin height' members).run r := by
  induction height with
  | zero => exact fun _ h ↦ absurd h (Nat.not_lt_zero _)
  | succ n ih =>
    intro r members height' hr h h'
    obtain ⟨n', rfl⟩ := Nat.exists_eq_succ_of_ne_zero (Nat.ne_of_gt (Nat.zero_lt_of_lt h'))
    rw [foldWithin_succ, foldWithin_succ]
    refine foldStep_congr hr fun r' parts hsub ↦ ?_
    have hn : r'.topRank parts < n := Nat.lt_of_lt_of_le hsub.lower (Nat.le_of_lt_succ h)
    have hn' : r'.topRank parts < n' := Nat.lt_of_lt_of_le hsub.lower (Nat.le_of_lt_succ h')
    exact ⟨foldWithin_extends hsub.wellFormed (hsub.knows hr) hn, ih hsub.wellFormed hn hn'⟩

theorem topRank_le_size (hM : ∀ m ∈ members, r.Knows m) : r.topRank members ≤ r.size :=
  topRank_le_iff.2 fun m hm ↦ rank_le_size (hM m hm)

/-- The fold is `foldWithin` with any bound that is large enough. -/
theorem fold_eq_foldWithin {height : Nat} (hr : r.WellFormed) (h : r.topRank members < height) :
    (fold members).run r = (foldWithin height members).run r := by
  obtain ⟨n, rfl⟩ := Nat.exists_eq_succ_of_ne_zero (Nat.ne_of_gt (Nat.zero_lt_of_lt h))
  cases hforeign : r.firstForeign? members with
  | some id => rw [fold_foreign hforeign, foldWithin_succ, foldStep_foreign hforeign]
  | none =>
    have hM := knows_of_firstForeign?_eq_none hforeign
    rw [fold, run_get_bind]
    exact foldWithin_eq hr (Nat.lt_succ_of_le (topRank_le_size hM)) h

/-- **The fold meets its own equation**: it does one step, with the fold for the calls below.
Whatever else is taken for the fold elsewhere plays no part. -/
theorem foldStep_fold {f : TypeSet → Inference TypeId} (hr : r.WellFormed)
    (h : ∀ r' parts, Subfold r members r' parts → (f parts).run r' = (fold parts).run r') :
    (foldStep f members).run r = (fold members).run r := by
  have hbelow : ∀ r' parts, Subfold r members r' parts →
      (fold parts).run r' = (foldWithin (r.topRank members) parts).run r' :=
    fun r' parts hsub ↦ fold_eq_foldWithin hsub.wellFormed hsub.lower
  rw [fold_eq_foldWithin hr (Nat.lt_succ_self _), foldWithin_succ]
  refine (foldStep_congr hr fun r' parts hsub ↦ ⟨?_, ?_⟩).symm
  · exact foldWithin_extends hsub.wellFormed (hsub.knows hr) hsub.lower
  · rw [h r' parts hsub, hbelow r' parts hsub]

end Inference

end Silhouette
