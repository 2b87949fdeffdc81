import Silhouette.Proofs.CompleteDeclarations

/-!
# Names that are free, one after another

What a search for a name finds can be said without its candidates: it is the base, or the base with
the least number that makes it free (`firstFree_iff`).

`takeName` takes the name that is found, and `takeNames` does so for one base after another.  A base
may itself end in a number, so that its candidates are those of another base; still no name is taken
twice (`takes_takeNames`).

An emitter takes names in no other way: its walk over the objects of a structure is such a sequence
(`exists_takeNames_of_assignNames`), and so is all that one structure makes it do
(`Emitter.exists_takeNames_of_emit`).

All of this is said of fresh names first.  As long as fewer than `nameLimit` names are taken it
holds of any search that counts in 32 bits (`takeNames_eq_of_follows`, `first_free_is_taken_once`);
after that there may be no first free name to be found (`no_first_free`).
-/

set_option autoImplicit false

namespace Silhouette

variable {wraps : Bool} {find : NameFinder} {taken : TakenNames} {base : String}

/-! ## What is found -/

/-- The base itself if it is free, and otherwise the base with the least number from 2 on behind it
that makes a free name. -/
structure FirstFree (taken : TakenNames) (base name : String) : Prop where
  not_mem : name ∉ taken
  eq_base : base ∉ taken → name = base
  eq_append : base ∈ taken → ∃ n, 2 ≤ n ∧ n ≤ taken.size + 1 ∧ name = base ++ toString n ∧
    ∀ m, 2 ≤ m → m < n → base ++ toString m ∈ taken

theorem firstFree_freshName (taken : TakenNames) (base : String) :
    FirstFree taken base (freshName taken base) where
  not_mem := freshName_not_mem taken base
  eq_base h := freshName_of_not_mem h
  eq_append h := by
    obtain ⟨k, hk, heq, hfree, htaken⟩ := exists_freshName_eq taken base
    cases k with
    | zero => exact absurd h hfree
    | succ k =>
      refine ⟨k + 2, by omega, by omega, heq, fun m hm hlt ↦ ?_⟩
      have hmem := htaken (m - 1) (by omega)
      rwa [show m - 1 = m - 2 + 1 by omega, nameCandidate, show m - 2 + 2 = m by omega] at hmem

/-- Only one name is the first. -/
theorem FirstFree.unique {name name' : String} (h : FirstFree taken base name)
    (h' : FirstFree taken base name') : name = name' := by
  by_cases hbase : base ∈ taken
  · obtain ⟨n, hn, -, rfl, hbefore⟩ := h.eq_append hbase
    obtain ⟨n', hn', -, rfl, hbefore'⟩ := h'.eq_append hbase
    rcases Nat.lt_trichotomy n n' with hlt | rfl | hlt
    · exact absurd (hbefore' n hn hlt) h.not_mem
    · rfl
    · exact absurd (hbefore n' hn' hlt) h'.not_mem
  · exact (h.eq_base hbase).trans (h'.eq_base hbase).symm

/-- **The fresh name is the first that is free.** -/
theorem firstFree_iff {name : String} : FirstFree taken base name ↔ name = freshName taken base :=
  ⟨fun h ↦ h.unique (firstFree_freshName taken base), fun h ↦ h ▸ firstFree_freshName taken base⟩

/-! ## One name after another -/

/-- Take a name for a base: the name, and what is taken with it. -/
def takeName (find : NameFinder) (taken : TakenNames) (base : String) : String × TakenNames :=
  let name := find taken base
  (name, taken.insert name)

/-- Take a name for each of some bases. -/
def takeNames (find : NameFinder) (taken : TakenNames) :
    (bases : List String) → List String × TakenNames
  | [] => ([], taken)
  | base :: bases =>
    let (name, taken) := takeName find taken base
    let (names, taken) := takeNames find taken bases
    (name :: names, taken)

/-- Names are taken: each of them was free, no two are the same, and nothing else changes. -/
structure Takes (before after : TakenNames) (names : List String) : Prop where
  nodup : names.Nodup
  not_mem : ∀ name ∈ names, name ∉ before
  mem_iff : ∀ name, name ∈ after ↔ name ∈ names ∨ name ∈ before

theorem Takes.cons {before between after : TakenNames} {name : String} {names : List String}
    (hfree : name ∉ before) (hmem : ∀ n, n ∈ between ↔ n = name ∨ n ∈ before)
    (h : Takes between after names) : Takes before after (name :: names) where
  nodup := List.nodup_cons.2 ⟨fun hn ↦ h.not_mem name hn ((hmem name).2 (.inl rfl)), h.nodup⟩
  not_mem := List.forall_mem_cons.2
    ⟨hfree, fun n hn hbefore ↦ h.not_mem n hn ((hmem n).2 (.inr hbefore))⟩
  mem_iff n := by rw [h.mem_iff, hmem, List.mem_cons, or_left_comm, or_assoc]

theorem mem_takeName (find : NameFinder) (taken : TakenNames) (base name : String) :
    name ∈ (takeName find taken base).2 ↔ name = (takeName find taken base).1 ∨ name ∈ taken :=
  mem_insert_taken

/-- **No name is taken twice.** -/
theorem takes_takeNames (taken : TakenNames) (bases : List String) :
    Takes taken (takeNames freshName taken bases).2 (takeNames freshName taken bases).1 := by
  induction bases generalizing taken with
  | nil =>
    exact ⟨List.nodup_nil, fun _ hn ↦ absurd hn List.not_mem_nil, fun _ ↦ by simp [takeNames]⟩
  | cons base bases ih =>
    exact .cons (freshName_not_mem taken base) (mem_takeName freshName taken base)
      (ih (takeName freshName taken base).2)

theorem length_takeNames (find : NameFinder) (taken : TakenNames) (bases : List String) :
    (takeNames find taken bases).1.length = bases.length := by
  induction bases generalizing taken with
  | nil => rfl
  | cons base bases ih => exact congrArg Nat.succ (ih (takeName find taken base).2)

/-- There is one more name for each base. -/
theorem size_takeNames (taken : TakenNames) (bases : List String) :
    (takeNames freshName taken bases).2.size = taken.size + bases.length := by
  induction bases generalizing taken with
  | nil => rfl
  | cons base bases ih =>
    have hone : (takeName freshName taken base).2.size = taken.size + 1 := by
      have hfree := mt Std.TreeSet.contains_iff_mem.1 (freshName_not_mem taken base)
      rw [takeName, Std.TreeSet.size_insert, if_neg hfree]
    have hrest := ih (takeName freshName taken base).2
    rw [hone] at hrest
    rw [List.length_cons, takeNames]
    dsimp only
    omega

/-- A search that counts in 32 bits takes fresh names, as long as there is room for one for each
base. -/
theorem takeNames_eq_of_follows (hfind : Follows wraps find) {bases : List String}
    (hroom : taken.size + bases.length ≤ nameLimit) :
    takeNames find taken bases = takeNames freshName taken bases := by
  induction bases generalizing taken with
  | nil => rfl
  | cons base bases ih =>
    rw [List.length_cons] at hroom
    have hname : find taken base = freshName taken base := hfind.eq_freshName base (by omega)
    have hone : (taken.insert (freshName taken base)).size ≤ taken.size + 1 :=
      Std.TreeSet.size_insert_le
    rw [takeNames, takeNames, takeName, takeName, hname]
    dsimp only
    rw [ih (by omega)]

/-! ## What an emitter takes -/

/-- Names were taken for these bases, and behind those that were there they are the names of the
result, if it has any. -/
structure TookFor (bases : List String) (taken : TakenNames) (names : List String)
    (result : Except EmitError Names × TakenNames) : Prop where
  taken_eq : result.2 = (takeNames freshName taken bases).2
  names_eq : ∀ names', result.1 = .ok names' →
    names'.map Prod.snd = names ++ (takeNames freshName taken bases).1

theorem TookFor.cons {bases names : List String} {result : Except EmitError Names × TakenNames}
    (h : TookFor bases (takeName freshName taken base).2 (names ++ [freshName taken base]) result) :
    TookFor (base :: bases) taken names result where
  taken_eq := h.taken_eq
  names_eq names' hok := by rw [h.names_eq names' hok, List.append_assoc]; rfl

/-- **A walk takes names one after another**, the hint of an object being the base. -/
theorem exists_takeNames_of_assignNames {r : Registry} {seen : List NodeId} {names : Names}
    {queue : List Visit} (hqueue : ∀ v ∈ queue, v.isName = false) :
    ∃ bases, TookFor bases taken (names.map Prod.snd)
      (assignNames freshName r seen taken names queue) := by
  induction seen, taken, names, queue using assignNames_induction freshName r with
  | nil seen taken names =>
    rw [assignNames_nil]
    refine ⟨[], rfl, fun names' hok ↦ ?_⟩
    cases hok
    exact (List.append_nil _).symm
  | scalar seen taken names kind hint isName queue ih =>
    rw [assignNames_scalar]
    exact ih (List.forall_mem_cons.1 hqueue).2
  | again seen taken names id hint isName queue hs ih =>
    rw [assignNames_of_mem hs]
    exact ih (List.forall_mem_cons.1 hqueue).2
  | missing seen taken names id hint isName queue hs hg =>
    rw [assignNames_of_none hs hg]
    exact ⟨[], rfl, fun names' hok ↦ by cases hok⟩
  | given seen taken names id hint queue fields hs hg =>
    cases (List.forall_mem_cons.1 hqueue).1
  | object seen taken names id hint queue fields hs hg ih =>
    rw [assignNames_of_object hs hg, if_neg Bool.false_ne_true]
    obtain ⟨bases, h⟩ := ih (List.forall_mem_append.2
      ⟨(List.forall_mem_cons.1 hqueue).2, fun _ hv ↦ (Visit.mem_next_cases hv).1⟩)
    rw [List.map_append] at h
    exact ⟨hint :: bases, h.cons⟩
  | other seen taken names id hint isName queue d hs hg hno ih =>
    rw [assignNames_of_not_isObject hs hg hno]
    exact ih (List.forall_mem_append.2
      ⟨(List.forall_mem_cons.1 hqueue).2, fun _ hv ↦ (Visit.mem_next_cases hv).1⟩)

/-- The root of a structure takes the first name. -/
theorem exists_takeNames_of_assignRoot (s : Structure) (taken : TakenNames) (name : String) :
    ∃ bases, (assignRoot s taken (freshName taken name)).2 =
        (takeNames freshName taken (name :: bases)).2 ∧
      ∀ names, (assignRoot s taken (freshName taken name)).1 = .ok names →
        declaredNames s (freshName taken name) names =
          (takeNames freshName taken (name :: bases)).1 := by
  have hnext : ∀ d, ∀ v ∈ ([] ++ Visit.next (freshName taken name) d : List Visit),
      v.isName = false := fun d v hv ↦ by
    rw [List.nil_append] at hv
    exact (Visit.mem_next_cases hv).1
  rw [assignRoot]
  cases hroot : s.root with
  | scalar kind =>
    rw [assignNames_scalar, assignNames_nil]
    refine ⟨[], rfl, fun names hok ↦ ?_⟩
    cases hok
    rw [declaredNames, if_neg (not_hasObjectRoot_of_scalar hroot)]
    rfl
  | node root =>
    cases hg : s.types.get? root with
    | none =>
      rw [assignNames_of_none List.not_mem_nil hg]
      exact ⟨[], rfl, fun names hok ↦ by cases hok⟩
    | some d =>
      by_cases hobj : s.types.IsObject root
      · obtain ⟨fields, hfields⟩ := hobj
        obtain rfl := Option.some.inj (hg.symm.trans hfields)
        rw [assignNames_of_object List.not_mem_nil hg, if_pos rfl]
        obtain ⟨bases, htaken, hnames⟩ := exists_takeNames_of_assignNames (hnext (.object fields))
        refine ⟨bases, htaken, fun names hok ↦ ?_⟩
        rw [declaredNames, if_pos ((hasObjectRoot_node_iff hroot).2 ⟨fields, hg⟩), hnames names hok]
        rfl
      · rw [assignNames_of_not_isObject List.not_mem_nil hg hobj]
        obtain ⟨bases, htaken, hnames⟩ := exists_takeNames_of_assignNames (hnext d)
        refine ⟨bases, htaken, fun names hok ↦ ?_⟩
        rw [declaredNames, if_neg (mt (hasObjectRoot_node_iff hroot).1 hobj), hnames names hok]
        rfl

namespace Emitter

/-- **An emitter takes names one after another**, whether or not a structure can be declared, and
if it can those are the names of its declarations. -/
theorem exists_takeNames_of_emit (e : Emitter) (s : Structure) (name : String) :
    ∃ bases, (e.emit s name).2.taken = (takeNames freshName e.taken bases).2 ∧
      ∀ e', e.emit s name = (.ok (), e') → e'.declarations.map Declaration.name =
        e.declarations.map Declaration.name ++ (takeNames freshName e.taken bases).1 := by
  by_cases hname : Text.isIdentifier name
  · obtain ⟨bases, htaken, hnames⟩ := exists_takeNames_of_assignRoot s e.taken name
    refine ⟨name :: bases, ?_⟩
    rw [emit_of_isIdentifier e s hname]
    rcases hassign : assignRoot s e.taken (freshName e.taken name) with ⟨error | names, taken⟩
    · rw [hassign] at htaken
      exact ⟨htaken, fun e' hok ↦ by cases hok⟩
    · rw [hassign] at htaken hnames
      refine ⟨(taken_declareNamed { e with taken } s _ names).trans htaken, fun e' hok ↦ ?_⟩
      dsimp only at hok
      cases hadded : declarationsOf e.options s (freshName e.taken name) names with
      | error error =>
        obtain ⟨added, hnamed, -⟩ := exists_declareNamed_of_error (e := { e with taken }) hadded
        rw [hnamed] at hok
        cases hok
      | ok added =>
        rw [declareNamed_of_ok (e := { e with taken }) hadded] at hok
        cases hok
        have hadds := adds_of_declarationsOf (isIdentifier_freshName e.taken hname) hassign hadded
        rw [push, List.map_append, hadds.names_eq, hnames names rfl]
  · rw [emit_of_not_isIdentifier e s hname]
    exact ⟨[], rfl, fun e' hok ↦ by cases hok⟩

end Emitter

/-- **A name is searched for in finitely many steps, and the first free one is taken**, whatever the
search does when the numbers run out.

* With fewer than `nameLimit` taken names the search ends, with one probe more than there are taken
  names at the latest, at the name that is taken: the base if it is free, and otherwise the base
  with the least number from 2 on that makes it so.  It was free before, and it is all that is
  added.
* Whatever the bases, one name is taken for each, all of them were free before, and no two are the
  same, if no more than `nameLimit` names are taken in the end.
* This is how an emitter takes names. -/
theorem first_free_is_taken_once (hfind : Follows wraps find) :
    (∀ (taken : TakenNames) (base : String), taken.size < nameLimit →
      (∃ probes ≤ taken.size + 1, ∀ p name, Search wraps taken base base 2 p name ↔
        p = probes ∧ name = (takeName find taken base).1) ∧
      (∀ name, FirstFree taken base name ↔ name = (takeName find taken base).1) ∧
      ∀ name, name ∈ (takeName find taken base).2 ↔
        name = (takeName find taken base).1 ∨ name ∈ taken) ∧
    (∀ (taken : TakenNames) (bases : List String), taken.size + bases.length ≤ nameLimit →
      (takeNames find taken bases).1.length = bases.length ∧
      Takes taken (takeNames find taken bases).2 (takeNames find taken bases).1) ∧
    ∀ (e : Emitter) (s : Structure) (name : String),
      (e.emitWith find s name).2.taken.size < nameLimit →
      ∃ bases, e.taken.size + bases.length < nameLimit ∧
        (e.emitWith find s name).2.taken = (takeNames find e.taken bases).2 ∧
        ∀ e', e.emitWith find s name = (.ok (), e') → e'.declarations.map Declaration.name =
          e.declarations.map Declaration.name ++ (takeNames find e.taken bases).1 := by
  refine ⟨fun taken base hroom ↦ ?_, fun taken bases hroom ↦ ?_, fun e s name hroom ↦ ?_⟩
  · have hname : (takeName find taken base).1 = freshName taken base :=
      hfind.eq_freshName base hroom
    refine ⟨?_, fun name ↦ ?_, mem_takeName find taken base⟩
    · rw [hname]
      exact search_iff wraps base hroom
    · rw [hname]
      exact firstFree_iff
  · rw [takeNames_eq_of_follows hfind hroom]
    exact ⟨length_takeNames freshName taken bases, takes_takeNames taken bases⟩
  · have heq := Emitter.emitWith_eq_emit hfind hroom
    obtain ⟨bases, htaken, hnames⟩ := Emitter.exists_takeNames_of_emit e s name
    rw [heq, htaken, size_takeNames] at hroom
    rw [heq]
    refine ⟨bases, hroom, ?_⟩
    rw [takeNames_eq_of_follows hfind (Nat.le_of_lt hroom)]
    exact ⟨htaken, hnames⟩

/-- Three names where two are taken, the second base being the name that the first one was given;
and the names of a structure whose root is to be called `Date`, which is a global type. -/
theorem first_free_is_taken_once_items :
    (takeNames freshName (.ofList ["Item", "Item2"]) ["Item", "Item3", "Item"]).1 =
      ["Item3", "Item32", "Item4"] ∧
    Takes (.ofList ["Item", "Item2"])
      (takeNames freshName (.ofList ["Item", "Item2"]) ["Item", "Item3", "Item"]).2
      ["Item3", "Item32", "Item4"] ∧
    ∃ (s : Structure) (e : Emitter) (bases : List String),
      inferValue 256 Emitter.rowsWithItem = .ok s ∧
      (Emitter.new {}).emit s "Date" = (.ok (), e) ∧
      FirstFree (Emitter.new {}).taken "Date" "Date2" ∧
      e.declarations.map Declaration.name = (takeNames freshName (Emitter.new {}).taken bases).1 ∧
      Takes (Emitter.new {}).taken e.taken (e.declarations.map Declaration.name) := by
  obtain ⟨hfirst, htakes, hemit⟩ := first_free_is_taken_once follows_freshName
  have hitems : (takeNames freshName (.ofList ["Item", "Item2"]) ["Item", "Item3", "Item"]).1 =
      ["Item3", "Item32", "Item4"] := by decide +kernel
  have hdate : (takeName freshName (Emitter.new {}).taken "Date").1 = "Date2" := by decide +kernel
  have hnew : (Emitter.new {}).taken.size = 34 := by decide +kernel
  obtain ⟨s, hs⟩ :=
    exists_ok_of_isOk (by decide +kernel : (inferValue 256 Emitter.rowsWithItem).isOk)
  have htypes : (inferValue 256 Emitter.rowsWithItem).toOption.map (·.types.size) = some 4 := by cbv
  rw [hs] at htypes
  obtain ⟨e, he, -⟩ := (Emitter.Sound.new {}).exists_emit_eq (Emitter.legible_default false)
    (Structure.Inferred.value hs).proper (by decide : Text.isIdentifier "Date")
  have hsize := Emitter.size_taken_emitWith_le freshName (.new {}) s "Date"
  rw [hnew, show s.types.size = 4 from Option.some.inj htypes] at hsize
  obtain ⟨bases, hroom, htaken, hnames⟩ :=
    hemit (.new {}) s "Date" (Nat.lt_of_le_of_lt hsize (by decide))
  have hdeclared := hnames e he
  rw [show (Emitter.new {}).declarations.map Declaration.name = [] from rfl, List.nil_append]
    at hdeclared
  have hfirstDate := (hfirst (Emitter.new {}).taken "Date" (by rw [hnew]; decide)).2.1 "Date2"
  refine ⟨hitems, ?_, s, e, bases, hs, he, hfirstDate.2 hdate.symm, hdeclared, ?_⟩
  · rw [← hitems]
    exact (htakes (.ofList ["Item", "Item2"]) ["Item", "Item3", "Item"] (by decide +kernel)).2
  · rw [← Emitter.emit, he] at htaken
    rw [hdeclared, htaken]
    exact (htakes _ bases (Nat.le_of_lt hroom)).2

/-! ## When the numbers run out -/

/-- The first so many candidates for `X`. -/
def numbered (count : Nat) : TakenNames := .ofList ((List.range count).map (nameCandidate "X"))

theorem mem_numbered {count : Nat} {name : String} :
    name ∈ numbered count ↔ ∃ n < count, nameCandidate "X" n = name := by
  rw [numbered, Std.TreeSet.mem_ofList, List.contains_iff_mem, List.mem_map]
  simp only [List.mem_range]

/-- **There is not always a first free name to be found.**  If `X` and all numbers but the largest
are taken, a search that does not wrap has no end.  If the largest is taken too, one that wraps
finds a name that is not the first free one. -/
theorem no_first_free :
    (∀ probes name, ¬ Search false (numbered nameLimit) "X" "X" 2 probes name) ∧
    ∃ probes name, Search true (numbered (nameLimit + 1)) "X" "X" 2 probes name ∧
      ¬ FirstFree (numbered (nameLimit + 1)) "X" name := by
  have hfree : "X" ++ "-2147483648" ∉ numbered (nameLimit + 1) := by
    rw [mem_numbered]
    rintro ⟨n, -, heq⟩
    exact append_least_ne_nameCandidate "X" n heq.symm
  have hwrapped := search_wrapped (fun n hn ↦ mem_numbered.2 ⟨n, Nat.lt_succ_of_le hn, rfl⟩) hfree
  refine ⟨not_search fun n hn ↦ mem_numbered.2 ⟨n, hn, rfl⟩, _, _, hwrapped, fun hfirst ↦ ?_⟩
  have hbase : "X" ∈ numbered (nameLimit + 1) := mem_numbered.2 ⟨0, Nat.succ_pos _, rfl⟩
  obtain ⟨n, hn, -, heq, -⟩ := hfirst.eq_append hbase
  rw [show n = n - 2 + 2 by omega] at heq
  exact append_least_ne_nameCandidate "X" (n - 2 + 1) heq

end Silhouette
