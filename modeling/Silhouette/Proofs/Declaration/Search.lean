import Silhouette.Proofs.Declaration.HandsOut
import Silhouette.Proofs.Declaration.OneByOne

/-!
# A search that counts in 32 bits

`freshName` counts as far as it has to.  Here is the search as a loop with a counter of 32 bits
(`Search`): it holds a candidate and the number that is to be put behind the base next.  Behind the
largest number the count either goes on at the least, or the loop breaks off; `wraps` tells which.

* With fewer than `nameLimit` taken names it never comes to that.  Then there is one way for the
  loop to go, and it finds what `freshName` finds, with at most one look more than there are taken
  names (`search_iff`).
* If all that can be numbered is taken, then a loop that breaks off finds nothing (`not_search`),
  and one that wraps finds a base with a minus behind it (`search_wrapped`).

`Follows wraps find` is all that is asked of a way to find names: where the loop comes to an end, it
finds the same.  With few names taken an emitter declares the same with it as with `freshName`
(`Emitter.emitWith_eq_emit`).
-/

set_option autoImplicit false

namespace Silhouette

variable {wraps : Bool} {taken : TakenNames} {base : String}

/-! ## Numbers of 32 bits -/

theorem toInt_int32 {n : Nat} (h : n ≤ nameLimit + 1) : (Int32.ofNat n).toInt = n :=
  Int32.toInt_ofNat_of_lt (by unfold nameLimit at h; omega)

theorem toString_int32 {n : Nat} (h : n ≤ nameLimit + 1) :
    toString (Int32.ofNat n) = toString n := by
  show toString (Int32.ofNat n).toInt = toString n
  rw [toInt_int32 h]
  rfl

theorem int32_ne_maxValue {n : Nat} (h : n ≤ nameLimit) : Int32.ofNat n ≠ Int32.maxValue := by
  intro heq
  have hmax : Int32.maxValue.toInt = 2147483647 := by decide
  rw [← heq, toInt_int32 (Nat.le_succ_of_le h)] at hmax
  unfold nameLimit at h
  omega

/-- The next candidate is the base with the number behind it. -/
theorem append_toString_int32 {n : Nat} (h : n < nameLimit) :
    base ++ toString (Int32.ofNat (n + 2)) = nameCandidate base (n + 1) := by
  rw [toString_int32 (Nat.succ_le_succ h)]
  rfl

/-! ## The loop -/

/-- The search from a candidate and the number to try next, which finds a name after so many
probes. -/
inductive Search (wraps : Bool) (taken : TakenNames) (base : String) :
    (candidate : String) → (number : Int32) → (probes : Nat) → (name : String) → Prop
  | free {candidate : String} {number : Int32} (h : candidate ∉ taken) :
      Search wraps taken base candidate number 1 candidate
  | next {candidate : String} {number : Int32} {probes : Nat} {name : String}
      (h : candidate ∈ taken) (hcount : wraps ∨ number ≠ Int32.maxValue)
      (rest : Search wraps taken base (base ++ toString number) (number + 1) probes name) :
      Search wraps taken base candidate number (probes + 1) name

namespace Search

/-- There is one way for a search to go. -/
theorem unique {candidate : String} {number : Int32} {probes probes' : Nat} {name name' : String}
    (h : Search wraps taken base candidate number probes name)
    (h' : Search wraps taken base candidate number probes' name') :
    probes = probes' ∧ name = name' := by
  induction h generalizing probes' with
  | free hfree =>
    cases h' with
    | free => exact ⟨rfl, rfl⟩
    | next htaken => exact absurd htaken hfree
  | next htaken _ _ ih =>
    cases h' with
    | free hfree => exact absurd htaken hfree
    | next _ _ rest =>
      obtain ⟨rfl, rfl⟩ := ih rest
      exact ⟨rfl, rfl⟩

/-- Candidates that are taken are passed over. -/
theorem of_taken {n k probes : Nat} {name : String}
    (htaken : ∀ i < k, nameCandidate base (n + i) ∈ taken) (hlimit : n + k ≤ nameLimit)
    (hcount : wraps ∨ n + k < nameLimit)
    (h : Search wraps taken base (nameCandidate base (n + k)) (.ofNat (n + k + 2)) probes name) :
    Search wraps taken base (nameCandidate base n) (.ofNat (n + 2)) (probes + k) name := by
  induction k generalizing n with
  | zero => exact h
  | succ k ih =>
    have hshift : n + (k + 1) = n + 1 + k := by omega
    refine .next (htaken 0 (Nat.succ_pos k))
      (hcount.imp_right fun _ ↦ int32_ne_maxValue (by omega)) ?_
    rw [append_toString_int32 (by omega)]
    have hone : Int32.ofNat (n + 2) + 1 = .ofNat (n + 1 + 2) := (Int32.ofNat_add (n + 2) 1).symm
    rw [hone]
    rw [hshift] at h hlimit hcount
    refine ih (fun i hi ↦ ?_) hlimit hcount h
    have hmem := htaken (i + 1) (by omega)
    rwa [show n + (i + 1) = n + 1 + i by omega] at hmem

/-- Candidates that are taken are passed over from the base on. -/
theorem of_base_taken {k probes : Nat} {name : String} (hlimit : k ≤ nameLimit)
    (hcount : wraps ∨ k < nameLimit) (htaken : ∀ i < k, nameCandidate base i ∈ taken)
    (h : Search wraps taken base (nameCandidate base k) (.ofNat (k + 2)) probes name) :
    Search wraps taken base base 2 (probes + k) name := by
  rw [← Nat.zero_add k] at hlimit hcount h
  exact .of_taken (n := 0) (fun i hi ↦ by rw [Nat.zero_add]; exact htaken i hi) hlimit hcount h

/-- The first free candidate is found. -/
theorem of_first_free {k : Nat} (hlimit : k ≤ nameLimit) (hcount : wraps ∨ k < nameLimit)
    (htaken : ∀ i < k, nameCandidate base i ∈ taken) (hfree : nameCandidate base k ∉ taken) :
    Search wraps taken base base 2 (k + 1) (nameCandidate base k) := by
  rw [Nat.add_comm]
  exact .of_base_taken hlimit hcount htaken (.free hfree)

/-- What a loop that does not wrap finds, with all candidates before it taken, is the fresh name. -/
theorem eq_freshName {candidate : String} {number : Int32} {n probes : Nat} {name : String}
    (h : Search false taken base candidate number probes name) (hn : n < nameLimit)
    (hcandidate : candidate = nameCandidate base n) (hnumber : number = .ofNat (n + 2))
    (hbefore : ∀ i < n, nameCandidate base i ∈ taken) :
    name = freshName taken base ∧ ∃ k < nameLimit, nameCandidate base k ∉ taken := by
  induction h generalizing n with
  | free hfree =>
    subst hcandidate
    exact ⟨(freshName_eq_of_first_free hfree hbefore).symm, n, hn, hfree⟩
  | next htaken hcount _ ih =>
    subst hcandidate hnumber
    have hnext : n + 1 < nameLimit := by
      refine Nat.lt_of_le_of_ne hn fun hlast ↦ ?_
      obtain hwraps | hmax := hcount
      · cases hwraps
      · obtain rfl : n = nameLimit - 1 := by omega
        exact hmax (by decide)
    refine ih hnext (append_toString_int32 hn) (Int32.ofNat_add (n + 2) 1).symm fun i hi ↦ ?_
    obtain hlt | rfl := Nat.lt_succ_iff_lt_or_eq.1 hi
    · exact hbefore i hlt
    · exact htaken

end Search

/-- **The loop ends**, after one probe more than there are taken names at the latest, and what it
finds is the fresh name. -/
theorem search_iff (wraps : Bool) (base : String) (hroom : taken.size < nameLimit) :
    ∃ probes ≤ taken.size + 1, ∀ p name,
      Search wraps taken base base 2 p name ↔ p = probes ∧ name = freshName taken base := by
  obtain ⟨k, hk, heq, hfree, htaken⟩ := exists_freshName_eq taken base
  have hsearch : Search wraps taken base base 2 (k + 1) (freshName taken base) := by
    rw [heq]
    exact .of_first_free (by omega) (.inr (by omega)) htaken hfree
  refine ⟨k + 1, Nat.succ_le_succ hk, fun p name ↦ ⟨fun h ↦ h.unique hsearch, ?_⟩⟩
  rintro ⟨rfl, rfl⟩
  exact hsearch

/-! ## When the numbers run out -/

/-- A loop that does not wrap finds nothing if all candidates up to the last but one are taken. -/
theorem not_search (htaken : ∀ n < nameLimit, nameCandidate base n ∈ taken) (probes : Nat)
    (name : String) : ¬ Search false taken base base 2 probes name := by
  intro h
  obtain ⟨-, k, hk, hfree⟩ := h.eq_freshName (n := 0) (by decide) rfl rfl nofun
  exact hfree (htaken k hk)

/-- A number with a minus in front is none of those that candidates end in. -/
theorem append_least_ne_nameCandidate (base : String) (n : Nat) :
    base ++ "-2147483648" ≠ nameCandidate base n := by
  intro heq
  cases n with
  | zero => exact absurd (String.append_eq_left_iff.1 heq) (by decide)
  | succ n =>
    have hminus : '-' ∈ (toString (n + 2)).toList := by
      rw [← (String.append_right_inj _).1 heq]
      decide
    exact absurd (Text.isDigit_of_mem_toString hminus) (by decide)

/-- A loop that wraps goes on at the least number. -/
theorem search_wrapped (htaken : ∀ n ≤ nameLimit, nameCandidate base n ∈ taken)
    (hfree : base ++ "-2147483648" ∉ taken) :
    Search true taken base base 2 (nameLimit + 2) (base ++ "-2147483648") := by
  have hleast : toString (Int32.ofNat (nameLimit + 2)) = "-2147483648" := by decide
  have hend : Search true taken base (nameCandidate base nameLimit) (.ofNat (nameLimit + 2)) 2
      (base ++ "-2147483648") := by
    refine .next (htaken nameLimit (Nat.le_refl _)) (.inl rfl) ?_
    rw [hleast]
    exact .free hfree
  rw [Nat.add_comm nameLimit 2]
  exact .of_base_taken (Nat.le_refl _) (.inl rfl) (fun i hi ↦ htaken i (Nat.le_of_lt hi)) hend

/-! ## Ways to find names -/

/-- What the loop finds is found. -/
def Follows (wraps : Bool) (find : NameFinder) : Prop :=
  ∀ taken base probes name, Search wraps taken base base 2 probes name → find taken base = name

/-- There is a way to find what the loop finds. -/
theorem exists_follows (wraps : Bool) : ∃ find, Follows wraps find := by
  classical
  refine ⟨fun taken base ↦
    if h : ∃ name probes, Search wraps taken base base 2 probes name then h.choose else base,
    fun taken base probes name h ↦ ?_⟩
  have hfound : ∃ name probes, Search wraps taken base base 2 probes name := ⟨name, probes, h⟩
  dsimp only
  rw [dif_pos hfound]
  obtain ⟨probes', h'⟩ := hfound.choose_spec
  exact (h'.unique h).2

/-- A loop that does not wrap finds nothing but fresh names. -/
theorem follows_freshName : Follows false freshName := fun _ _ _ _ h ↦
  (h.eq_freshName (n := 0) (by decide) rfl rfl nofun).1.symm

theorem Follows.eq_freshName {find : NameFinder} (h : Follows wraps find) (base : String)
    (hroom : taken.size < nameLimit) : find taken base = freshName taken base := by
  obtain ⟨probes, -, hsearch⟩ := search_iff wraps base hroom
  exact h taken base probes _ ((hsearch _ _).2 ⟨rfl, rfl⟩)

/-! ## Emitters -/

/-- There are no fewer names than in a part of them. -/
theorem size_le_of_subset {before after : TakenNames} (h : ∀ name ∈ before, name ∈ after) :
    before.size ≤ after.size := by
  have hnodup : before.toList.Nodup := by
    refine Std.TreeSet.distinct_toList.imp ?_
    rintro name _ hne rfl
    exact hne Std.ReflCmp.compare_self
  rw [← Std.TreeSet.length_toList, ← Std.TreeSet.length_toList]
  refine hnodup.length_le_of_subset fun name hname ↦ ?_
  rw [Std.TreeSet.mem_toList] at hname ⊢
  exact h name hname

section Walk

variable {find : NameFinder} {r : Registry} {seen : List NodeId} {names : Names}
  {queue : List Visit}

/-- A walk that takes few names takes the same in both ways. -/
theorem assignNames_eq_of_follows (hfind : Follows wraps find)
    (hroom : (assignNames find r seen taken names queue).2.size < nameLimit) :
    assignNames find r seen taken names queue = assignNames freshName r seen taken names queue := by
  induction seen, taken, names, queue using assignNames_induction find r with
  | nil => rw [assignNames_nil, assignNames_nil]
  | scalar seen taken names kind hint isName queue ih =>
    rw [assignNames_scalar] at hroom ⊢
    rw [assignNames_scalar, ih hroom]
  | again seen taken names id hint isName queue hs ih =>
    rw [assignNames_of_mem hs] at hroom ⊢
    rw [assignNames_of_mem hs, ih hroom]
  | missing seen taken names id hint isName queue hs hg =>
    rw [assignNames_of_none hs hg, assignNames_of_none hs hg]
  | given seen taken names id hint queue fields hs hg ih =>
    rw [assignNames_of_object hs hg, if_pos rfl] at hroom ⊢
    rw [assignNames_of_object hs hg, if_pos rfl, ih hroom]
  | object seen taken names id hint queue fields hs hg ih =>
    rw [assignNames_of_object hs hg, if_neg Bool.false_ne_true] at hroom ⊢
    -- the names taken so far are among those taken in the end
    have htaken : taken.size < nameLimit := Nat.lt_of_le_of_lt
      (size_le_of_subset fun name hname ↦
        mem_taken_assignNames (Std.TreeSet.mem_insert.2 (.inr hname))) hroom
    rw [assignNames_of_object hs hg, if_neg Bool.false_ne_true, ih hroom,
      hfind.eq_freshName hint htaken]
  | other seen taken names id hint isName queue d hs hg hno ih =>
    rw [assignNames_of_not_isObject hs hg hno] at hroom ⊢
    rw [assignNames_of_not_isObject hs hg hno, ih hroom]

/-- A walk takes one name at most for each registered node that it has not seen. -/
theorem size_taken_assignNames_le :
    (assignNames find r seen taken names queue).2.size ≤ taken.size + (r.unseen seen).length := by
  have hless : ∀ {seen id d}, id ∉ seen → r.get? id = some d →
      (r.unseen (id :: seen)).length < (r.unseen seen).length := fun hs hg ↦
    Registry.length_unseen_cons_lt (Registry.mem_ids_of_get? hg) hs
  induction seen, taken, names, queue using assignNames_induction find r with
  | nil => rw [assignNames_nil]; exact Nat.le_add_right _ _
  | scalar seen taken names kind hint isName queue ih => rwa [assignNames_scalar]
  | again seen taken names id hint isName queue hs ih => rwa [assignNames_of_mem hs]
  | missing seen taken names id hint isName queue hs hg =>
    rw [assignNames_of_none hs hg]
    exact Nat.le_add_right _ _
  | given seen taken names id hint queue fields hs hg ih =>
    rw [assignNames_of_object hs hg, if_pos rfl]
    have := hless hs hg
    omega
  | object seen taken names id hint queue fields hs hg ih =>
    rw [assignNames_of_object hs hg, if_neg Bool.false_ne_true]
    have := hless hs hg
    have hone : (taken.insert (find taken hint)).size ≤ taken.size + 1 :=
      Std.TreeSet.size_insert_le
    omega
  | other seen taken names id hint isName queue d hs hg hno ih =>
    rw [assignNames_of_not_isObject hs hg hno]
    have := hless hs hg
    omega

end Walk

namespace Emitter

/-- Whatever becomes of a structure, what is taken stays so. -/
theorem mem_taken_emitWith {find : NameFinder} {e : Emitter} {s : Structure}
    {rootName name : String} (h : name ∈ e.taken) :
    name ∈ (e.emitWith find s rootName).2.taken := by
  by_cases hroot : Text.isIdentifier rootName
  · rw [taken_emitWith find e s hroot]
    exact mem_taken_assignNames (Std.TreeSet.mem_insert.2 (.inr h))
  · rwa [emitWith_of_not_isIdentifier find e s hroot]

/-- A structure takes no more names than it has types, and one for the root. -/
theorem size_taken_emitWith_le (find : NameFinder) (e : Emitter) (s : Structure) (name : String) :
    (e.emitWith find s name).2.taken.size ≤ e.taken.size + 1 + s.types.size := by
  by_cases hname : Text.isIdentifier name
  · have hone : (e.taken.insert (find e.taken name)).size ≤ e.taken.size + 1 :=
      Std.TreeSet.size_insert_le
    have hall : (s.types.unseen []).length ≤ s.types.size := by
      have hle := List.length_filter_le (· ∉ []) s.types.ids
      rwa [Registry.length_ids] at hle
    rw [taken_emitWith find e s hname]
    refine size_taken_assignNames_le.trans ?_
    omega
  · rw [emitWith_of_not_isIdentifier find e s hname]
    exact (Nat.le_add_right _ 1).trans (Nat.le_add_right _ _)

/-- If there is room for more names in the end, there was before. -/
theorem room_of_emitWith {find : NameFinder} {e : Emitter} {s : Structure} {rootName : String}
    (hroom : (e.emitWith find s rootName).2.taken.size < nameLimit) : e.taken.size < nameLimit :=
  Nat.lt_of_le_of_lt (size_le_of_subset fun _ ↦ mem_taken_emitWith) hroom

/-- **With few names taken it makes no difference how far the numbers go.** -/
theorem emitWith_eq_emit {find : NameFinder} (hfind : Follows wraps find) {e : Emitter}
    {s : Structure} {name : String} (hroom : (e.emitWith find s name).2.taken.size < nameLimit) :
    e.emitWith find s name = e.emit s name := by
  have htaken := room_of_emitWith hroom
  by_cases hname : Text.isIdentifier name
  · rw [taken_emitWith find e s hname] at hroom
    rw [emit, emitWith_of_isIdentifier find e s hname, emitWith_of_isIdentifier freshName e s hname,
      assignNames_eq_of_follows hfind hroom, hfind.eq_freshName name htaken]
  · rw [emit, emitWith_of_not_isIdentifier find e s hname,
      emitWith_of_not_isIdentifier freshName e s hname]

end Emitter

end Silhouette
