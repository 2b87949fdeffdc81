import Silhouette.Proofs.Inference.Recursion
import Silhouette.Proofs.Inference.Session

/-!
# Properties that follow the text

`Inference.Compositional P` says that a property `P` of computations, each looked at on the registry
where it is started, passes from the pieces of a computation to the whole.  Such a property holds of
whatever an inference does: of the fold (`Compositional.fold`), of the walk through a sample
(`Compositional.observeAt`) and of every call (`Compositional.answer`).  The text is gone through
here once, and for a property there is only its own rules left to show.

Two of the rules say what is particular about this text.  A computation that looks at the registry
makes nothing of what has been registered meanwhile (`get_bind`): what is known is described as
before (`Registry.Grows.describe?`), so the rule for a set of known members stays the same
(`FoldRule.select_grows`).  And a union is interned only if it is flat (`Registry.MakesUnion`).
-/

set_option autoImplicit false

namespace Silhouette

/-! ## What growth leaves alone -/

section Growth

open Registry

variable {r r' : Registry} {members : TypeSet}

theorem FoldRule.select_grows (hg : r.Grows r') (hM : ∀ m ∈ members, r.Knows m) :
    FoldRule.select r' members = FoldRule.select r members := by
  have hitems : members.toList.filterMap r'.item? = members.toList.filterMap r.item? :=
    List.filterMap_congr fun m hm ↦ hg.item? (hM m hm)
  have hfields : members.toList.filterMap r'.fields? = members.toList.filterMap r.fields? :=
    List.filterMap_congr fun m hm ↦ hg.fields? (hM m hm)
  rw [FoldRule.select, FoldRule.select, hitems, hfields]

/-- What a union may be made of: no types or several, each an alternative of a known type. -/
structure Registry.MakesUnion (r : Registry) (members : TypeSet) : Prop where
  size : members.size = 0 ∨ 2 ≤ members.size
  alternative : ∀ m ∈ members, ∃ id, r.Knows id ∧ m ∈ r.alternatives id

end Growth

namespace Inference

open Registry

/-- A property that passes from the pieces of a computation to the whole. -/
structure Compositional (P : {α : Type} → Inference α → Registry → Prop) : Prop where
  pure : ∀ {α : Type} (a : α) (r : Registry), P (Pure.pure a : Inference α) r
  /-- A computation that fails and registers nothing. -/
  refuse : ∀ {α : Type} {x : Inference α} {r : Registry} {e : InferenceError},
    x.run r = (.error e, r) → P x r
  bind : ∀ {α β : Type} {x : Inference α} {f : α → Inference β} {r : Registry}
    {post : Registry → α → Prop} {fail : InferenceError → Prop}, x.Ensures r post fail → P x r →
    (∀ a r', r.Grows r' → r'.WellFormed → post r' a → P (f a) r') → P (x >>= f) r
  /-- What is looked up in the registry has to stay when the registry grows. -/
  get_bind : ∀ {β : Type} {f : Registry → Inference β} {r : Registry},
    (∀ r', r.Grows r' → f r' = f r) → P (f r) r → P (get >>= f) r
  intern : ∀ {d : Descriptor} {r : Registry}, r.WellFormed → (∀ c ∈ d.children, r.Knows c) →
    (∀ members, d = .union members → r.MakesUnion members) → P (Inference.intern d) r
  /-- A computation may stand for another one that runs the same, now and later. -/
  congr : ∀ {α : Type} {x y : Inference α} {r : Registry}, r.WellFormed →
    (∀ r', r.Grows r' → r'.WellFormed → x.run r' = y.run r') → P x r → P y r

/-- The fold folds sets of ids as their trees are folded, wherever the members stand. -/
theorem foldsBefore_fold (n : Nat) : FoldsBefore n fold :=
  fun _ _ hr hM ↦ fold_ensures hr fun m hm ↦ (hM m hm).knows

namespace Compositional

variable {P : {α : Type} → Inference α → Registry → Prop} (hP : Compositional P)
  {r : Registry} {members : TypeSet} {limit : Nat}

include hP

/-! ## Loops and unions -/

theorem throw {α : Type} (e : InferenceError) (r : Registry) :
    P (MonadExcept.throw e : Inference α) r :=
  hP.refuse rfl

theorem mapM {α β : Type} {fail : InferenceError → Prop} {f : α → Inference β} {l : List α}
    (hr : r.WellFormed)
    (hf : ∀ a ∈ l, ∀ r', r.Grows r' → r'.WellFormed →
      (f a).Ensures r' (fun _ _ ↦ True) fail ∧ P (f a) r') :
    P (l.mapM f) r := by
  induction l generalizing r with
  | nil =>
    rw [List.mapM_nil]
    exact hP.pure [] r
  | cons a l ih =>
    obtain ⟨hx, hk⟩ := hf a List.mem_cons_self r (.refl r) hr
    have hrest : ∀ c ∈ l, ∀ r₁ r₂, r.Grows r₁ → r₁.Grows r₂ → r₂.WellFormed →
        (f c).Ensures r₂ (fun _ _ ↦ True) fail ∧ P (f c) r₂ :=
      fun c hc r₁ r₂ hg hg' hw ↦ hf c (List.mem_cons_of_mem _ hc) r₂ (hg.trans hg') hw
    rw [List.mapM_cons]
    refine hP.bind hx hk fun b r₁ hg₁ hw₁ _ ↦ ?_
    refine hP.bind (Ensures.mapM (fun _ _ ↦ trivial) hw₁ fun c hc r₂ hg₂ hw₂ ↦
      (hrest c hc r₁ r₂ hg₁ hg₂ hw₂).1) ?_ fun bs r₃ _ _ _ ↦ hP.pure (b :: bs) r₃
    exact ih hw₁ fun c hc r₂ hg₂ hw₂ ↦ hrest c hc r₁ r₂ hg₁ hg₂ hw₂

/-- Anything but a union may be interned. -/
theorem intern_of_ne (hr : r.WellFormed) {d : Descriptor} (hd : ∀ c ∈ d.children, r.Knows c)
    (hne : ∀ members, d ≠ .union members) : P (Inference.intern d) r :=
  hP.intern hr hd fun members he ↦ absurd he (hne members)

theorem mergeUnion (hr : r.WellFormed) (hM : ∀ m ∈ members, r.Knows m) :
    P (Inference.mergeUnion members) r := by
  refine hP.get_bind (fun r' hg ↦ ?_) ?_
  · have halt : members.toList.flatMap r'.alternatives = members.toList.flatMap r.alternatives :=
      List.flatMap_congr fun m hm ↦ hg.alternatives (hM m hm)
    dsimp only
    rw [halt]
  · have hmem : ∀ c ∈ (.ofList (members.toList.flatMap r.alternatives) : TypeSet),
        ∃ id, r.Knows id ∧ c ∈ r.alternatives id := by
      intro c hc
      obtain ⟨m, hm, hc⟩ := List.mem_flatMap.1 (Ordered.mem_ofList.1 hc)
      exact ⟨m, hM m hm, hc⟩
    dsimp only
    split
    · exact hP.pure _ r
    · next hne =>
      refine hP.intern hr (fun c hc ↦ ?_) fun flat he ↦ ?_
      · obtain ⟨id, hid, hc⟩ := hmem c hc
        exact hr.knows_alternative hid hc
      · cases he
        exact ⟨Ordered.size_of_ne_singleton hne, hmem⟩

theorem orUndefined (hr : r.WellFormed) {id : TypeId} (h : r.Knows id) :
    P (Inference.orUndefined id) r := by
  refine hP.mergeUnion hr fun m hm ↦ ?_
  rw [Ordered.mem_ofList, List.mem_cons, List.mem_singleton] at hm
  rcases hm with rfl | rfl
  · exact h
  · trivial

/-- The list over whatever a computation answers. -/
theorem array {x : Inference TypeId} {t : TypeTree}
    (hx : x.Ensures r (fun r' id ↦ r'.Unfolds id t) InferenceError.IsClash) (h : P x r) :
    P (x >>= fun id ↦ Inference.intern (.array id)) r := by
  refine hP.bind hx h fun id r' _ hw hu ↦ hP.intern_of_ne hw (fun c hc ↦ ?_) fun _ ↦ nofun
  rw [List.mem_singleton.1 hc]
  exact hu.knows

/-! ## Folding -/

section Step

variable (hr : r.WellFormed) (hM : ∀ m ∈ members, r.Knows m)
  (hbelow : ∀ r' parts, Subfold r members r' parts → P (Inference.fold parts) r')
include hr hbelow

theorem mergeArrays (hne : members.toList.filterMap r.item? ≠ []) :
    P (Inference.mergeArrays Inference.fold (members.toList.filterMap r.item?)) r := by
  have hsub := subfold_items hr hne
  exact hP.array (fold_ensures hr (hsub.knows hr)) (hbelow r _ hsub)

theorem mergeField {key : String} (hkey : key ∈ allKeys (members.toList.filterMap r.fields?))
    {r' : Registry} (hg : r.Grows r') (hw : r'.WellFormed) :
    P (Inference.mergeField Inference.fold (members.toList.filterMap r.fields?) key) r' := by
  have hsub := subfold_types hr hkey hg hw
  exact hP.bind (fold_ensures hw (hsub.knows hr)) (hbelow r' _ hsub) fun _ r'' _ _ _ ↦
    hP.pure _ r''

include hM

theorem mergeObjects :
    P (Inference.mergeObjects Inference.fold (members.toList.filterMap r.fields?)) r := by
  have hparts := fields_before hr fun m hm ↦ (hM m hm).before_size
  have hfield := fun key {r'} (hg : r.Grows r') (hw : r'.WellFormed) ↦
    mergeField_ensures (foldsBefore_fold _) hr hM hparts key hg hw
  refine hP.bind (Ensures.mapM (fun hg h ↦ ⟨h.1, h.2.1, h.2.2.grows hg⟩) hr
    fun key _ r' hg hw ↦ hfield key hg hw) (hP.mapM hr fun key hkey r' hg hw ↦
      ⟨(hfield key hg hw).forget, hP.mergeField hr hbelow hkey hg hw⟩) fun fs r' _ hw hfs ↦ ?_
  refine hP.intern_of_ne hw (fun c hc ↦ ?_) fun _ ↦ nofun
  obtain ⟨e, he, rfl⟩ := List.mem_map.1 hc
  exact (map_entryTree hfs).2 e (Ordered.mem_of_mem_ofList he)

theorem foldStep : P (Inference.foldStep Inference.fold members) r := by
  have hforeign := firstForeign?_eq_none hM
  have hrule := FoldRule.select_cases hr hM
  have hbefore : ∀ m ∈ members, r.Before r.size m := fun m hm ↦ (hM m hm).before_size
  refine hP.get_bind (fun r' hg ↦ ?_) ?_
  · have hforeign' : r'.firstForeign? members = none :=
      firstForeign?_eq_none fun m hm ↦ hg.knows (hM m hm)
    rw [hforeign, hforeign', FoldRule.select_grows hg hM]
  rw [hforeign]
  dsimp only
  generalize FoldRule.select r members = rule at hrule ⊢
  cases rule with
  | bottom =>
    refine hP.intern hr (fun c hc ↦ absurd hc List.not_mem_nil) fun members he ↦ ?_
    cases he
    exact ⟨.inl rfl, fun m hm ↦ absurd hm (Ordered.not_mem_empty m)⟩
  | identity only => exact hP.pure only r
  | arrays items =>
    obtain ⟨⟨rfl, hne⟩, -⟩ := hrule
    exact hP.mergeArrays hr hbelow hne
  | objects shapes =>
    obtain ⟨⟨rfl, -⟩, -⟩ := hrule
    exact hP.mergeObjects hr hM hbelow
  | optionalArrays items =>
    obtain ⟨⟨rfl, hne⟩, -⟩ := hrule
    exact hP.bind (mergeArrays_ensures (foldsBefore_fold _) hr (items_before hr hbefore))
      (hP.mergeArrays hr hbelow hne) fun _ _ _ hw hu ↦ hP.orUndefined hw hu.knows
  | optionalObjects shapes =>
    obtain ⟨⟨rfl, -⟩, -⟩ := hrule
    exact hP.bind (mergeObjects_ensures (foldsBefore_fold _) hr hM (fields_before hr hbefore))
      (hP.mergeObjects hr hM hbelow) fun _ _ _ hw hu ↦ hP.orUndefined hw hu.knows
  | mixed => exact hP.mergeUnion hr hM

end Step

/-- A fold is a step, and the calls below it are folds on sets with lower ranks. -/
theorem fold (hr : r.WellFormed) (hM : ∀ m ∈ members, r.Knows m) :
    P (Inference.fold members) r := by
  induction hn : r.topRank members using Nat.strongRecOn generalizing r members with
  | _ n ih =>
    subst hn
    have hstep : P (Inference.foldStep Inference.fold members) r :=
      hP.foldStep hr hM fun r' parts hsub ↦
        ih _ hsub.lower hsub.wellFormed (hsub.knows hr) rfl
    exact hP.congr hr (fun r' _ hw ↦ foldStep_fold hw fun _ _ _ ↦ rfl) hstep

/-! ## Observing -/

theorem checkDepth (path : Path) (r : Registry) : P (Inference.checkDepth limit path) r := by
  rw [Inference.checkDepth]
  split
  · exact hP.throw _ r
  · exact hP.pure () r

theorem scalar (hr : r.WellFormed) (path : Path) (k : Scalar) :
    P (Inference.checkDepth limit path >>= fun _ ↦ Pure.pure (TypeId.scalar k)) r :=
  hP.bind (checkDepth_ensures hr path) (hP.checkDepth path r) fun _ r' _ _ _ ↦ hP.pure _ r'

theorem closeList (hr : r.WellFormed) (hM : ∀ m ∈ members, r.Knows m) :
    P (Inference.closeList members) r :=
  hP.array (fold_ensures hr hM) (hP.fold hr hM)

theorem object (hr : r.WellFormed) {fields : Fields} (hknown : ∀ e ∈ fields, r.Knows e.2.type) :
    P (Inference.intern (.object fields)) r := by
  refine hP.intern_of_ne hr (fun c hc ↦ ?_) fun _ ↦ nofun
  obtain ⟨e, he, rfl⟩ := List.mem_map.1 hc
  exact hknown e he

mutual

theorem observeAt : ∀ (v : Json) (path : Path) {r : Registry}, r.WellFormed →
    P (Inference.observeAt limit path v) r
  | .null, path, _, hr => hP.scalar hr path .null
  | .bool _, path, _, hr => hP.scalar hr path .boolean
  | .number _, path, _, hr => hP.scalar hr path .number
  | .string _, path, _, hr => hP.scalar hr path .string
  | .array items, path, r, hr => by
    refine hP.bind (checkDepth_ensures hr path) (hP.checkDepth path r) fun _ r₁ _ hw₁ hd ↦ ?_
    have hempty : ∀ m ∈ (∅ : TypeSet), r₁.Knows m := fun m hm ↦ absurd hm (Ordered.not_mem_empty m)
    refine hP.bind (observeItems_ensures items path 0 hd hw₁ hempty)
      (observeItems items path 0 hd hw₁ hempty) fun met r₂ _ hw₂ h ↦ ?_
    obtain ⟨_, _, _, hknown, _⟩ := h
    exact hP.closeList hw₂ hknown
  | .object members, path, r, hr => by
    refine hP.bind (checkDepth_ensures hr path) (hP.checkDepth path r) fun _ r₁ _ hw₁ hd ↦ ?_
    cases Marker.read? members with
    | some answer =>
      cases answer with
      | ok k => exact hP.pure _ r₁
      | error fault => exact hP.throw _ r₁
    | none =>
      have hempty : ∀ e ∈ (∅ : Fields), r₁.Knows e.2.type :=
        fun e he ↦ absurd he (Ordered.not_mem_empty e)
      refine hP.bind (observeMembers_ensures members path hd hw₁ hempty)
        (observeMembers members path hd hw₁ hempty) fun met r₂ _ hw₂ h ↦ ?_
      obtain ⟨_, _, _, hknown, _⟩ := h
      exact hP.object hw₂ hknown

theorem observeItems : ∀ (vs : List Json) (path : Path) (index : Nat) {r : Registry}
    {met : TypeSet}, path.depth ≤ limit → r.WellFormed → (∀ m ∈ met, r.Knows m) →
    P (Inference.observeItems limit path index met vs) r
  | [], _, _, r, met, _, _, _ => hP.pure met r
  | v :: vs, path, index, _, _, hd, hr, hM => by
    refine hP.bind (observeAt_ensures v (path.push (.index index)) hr)
      (observeAt v (path.push (.index index)) hr) fun id r₁ hg₁ hw₁ h ↦ ?_
    obtain ⟨t, -, -, hu⟩ := h
    exact observeItems vs path (index + 1) hd hw₁ (image_insert hr hg₁ hM hu).1

theorem observeMembers : ∀ (members : List (String × Json)) (path : Path) {r : Registry}
    {met : Fields}, path.depth ≤ limit → r.WellFormed → (∀ e ∈ met, r.Knows e.2.type) →
    P (Inference.observeMembers limit path met members) r
  | [], _, r, met, _, _, _ => hP.pure met r
  | (key, v) :: rest, path, _, _, hd, hr, hM => by
    refine hP.bind (observeAt_ensures v (path.push (.key key)) hr)
      (observeAt v (path.push (.key key)) hr) fun id r₁ hg₁ hw₁ h ↦ ?_
    obtain ⟨t, -, -, hu⟩ := h
    exact observeMembers rest path hd hw₁ (toTrees_set_grows hr hg₁ hM key hu).1

end

theorem observe (hr : r.WellFormed) (v : Json) : P (Inference.observe limit v) r :=
  hP.observeAt v .root hr

theorem observeQuery (hr : r.WellFormed) (query : String) (results : List Json) :
    P (Inference.observeQuery limit query results) r := by
  rw [Inference.observeQuery]
  split
  · exact hP.throw _ r
  · have hempty : ∀ e ∈ (∅ : Fields), r.Knows e.2.type :=
      fun e he ↦ absurd he (Ordered.not_mem_empty e)
    refine hP.bind (observeMembers_ensures _ .root (Nat.zero_le limit) hr hempty)
      (hP.observeMembers _ .root (Nat.zero_le limit) hr hempty) fun _ _ _ hw h ↦ ?_
    obtain ⟨_, _, _, hknown, _⟩ := h
    exact hP.object hw hknown

/-! ## Calls -/

/-- **What the rules give for the pieces holds of every call.** -/
theorem answer (hr : r.WellFormed) (c : Call) : P c.answer r := by
  cases c with
  | value limit v => exact hP.observe hr v
  | samples limit vs =>
    rw [answer_samples]
    exact hP.observe hr (.array vs)
  | fold members =>
    cases hf : r.firstForeign? members with
    | some id => exact hP.refuse (fold_foreign hf)
    | none => exact hP.fold hr (knows_of_firstForeign?_eq_none hf)

end Compositional

end Inference

end Silhouette
