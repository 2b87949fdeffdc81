import Silhouette.Proofs.Inference.Faults
import Silhouette.Proofs.Inference.Result
import Silhouette.Proofs.Inference.Session

/-!
# A sample is refused for the first thing that is wrong with it

Whoever gets an error has to find the site it is about.  Here that site is determined: an
inference fails just if some site of the sample, taken in document order, lies deeper than the
limit or holds a malformed marker, and the error is about the first such site, under the path as it
is written out (`inference_fails_at_first_fault`).  Depth comes before classification, and the
inside of a marker is no site at all.

The limit does nothing else: what is accepted under two limits has one structure.

A clash of digests is an error of another kind, and it is excepted throughout (`NoClash`).
-/

set_option autoImplicit false

namespace Silhouette

open Json Registry

/-- An outcome is a failure just if something is wrong at one of some sites, and then it tells what
is wrong at the first of them. -/
structure FailsAtFirst {α : Type} (limit : Nat) (ps : List Site)
    (outcome : Except InferenceError α) : Prop where
  fails_iff : (∃ e, outcome = .error e) ↔
    ∃ p ∈ ps, limit < p.path.depth ∨ ∃ fault, Kind.ofValue p.value = .error fault
  firstFault : ∀ e, outcome = .error e → FirstFault limit ps e

namespace Inference

variable {x y : Inference TypeId} {r : Registry} {limit limit' : Nat} {ps : List Site}

/-- What a computation says of some sites, if it is started on a registry. -/
abbrev Checks (limit : Nat) (ps : List Site) (x : Inference TypeId) (r : Registry) : Prop :=
  x.Ensures r (fun _ _ ↦ ∀ p ∈ ps, p.Fine limit) (ClashOr limit ps)

theorem failsAtFirst_run (hx : Checks limit ps x r) (hno : NoClash (x.run r).1) :
    FailsAtFirst limit ps (x.run r).1 := by
  have hfirst : ∀ e, (x.run r).1 = .error e → FirstFault limit ps e := by
    intro e he
    rcases (hx.of_error (Prod.ext he rfl)).2.2 with hclash | hfirst
    · cases e with
      | idCollision id => exact absurd he (hno id)
      | _ => exact hclash.elim
    · exact hfirst
  refine ⟨⟨?_, ?_⟩, hfirst⟩
  · rintro ⟨e, he⟩
    obtain ⟨p, hp, hfault⟩ := (hfirst e he).not_fine
    exact ⟨p, hp, Site.not_fine_iff.1 hfault⟩
  · rintro ⟨p, hp, hfault⟩
    cases hrun : (x.run r).1 with
    | error e => exact ⟨e, rfl⟩
    | ok id =>
      exact absurd ((hx.of_ok (Prod.ext hrun rfl)).2.2 p hp) (Site.not_fine_iff.2 hfault)

theorem structure?_eq_error_iff {e : InferenceError} :
    x.structure? = .error e ↔ (x.run ∅).1 = .error e := by
  rw [structure?]
  rcases x.run ∅ with ⟨e' | root, types⟩
  · dsimp only
    rw [Except.error.injEq, Except.error.injEq]
  · exact iff_of_false (by rintro ⟨⟩) (by rintro ⟨⟩)

/-- The structure of a computation is refused for what the computation is refused for. -/
theorem failsAtFirst_structure? (hx : Checks limit ps x ∅) (hno : NoClash x.structure?) :
    FailsAtFirst limit ps x.structure? := by
  obtain ⟨hfails, hfirst⟩ := failsAtFirst_run hx fun id h ↦ hno id (structure?_eq_error_iff.2 h)
  refine ⟨?_, fun e he ↦ hfirst e (structure?_eq_error_iff.1 he)⟩
  rw [← hfails]
  exact exists_congr fun e ↦ structure?_eq_error_iff

/-- Two computations that are one as long as no site exceeds their limits, and that both succeed,
are one. -/
theorem run_eq_of_limits {a b : TypeId} {r₁ r₂ : Registry} (hx : Checks limit ps x r)
    (hy : Checks limit' ps y r) (hxy : BothCover limit limit' ps → x = y)
    (ha : x.run r = (.ok a, r₁)) (hb : y.run r = (.ok b, r₂)) : x = y := by
  obtain ⟨-, -, hfine⟩ := hx.of_ok ha
  obtain ⟨-, -, hfine'⟩ := hy.of_ok hb
  exact hxy fun p hp ↦ ⟨(hfine p hp).depth_le, (hfine' p hp).depth_le⟩

theorem structure?_eq_of_limits {s s' : Structure} (hx : Checks limit ps x ∅)
    (hy : Checks limit' ps y ∅) (hxy : BothCover limit limit' ps → x = y)
    (hs : x.structure? = .ok s) (hs' : y.structure? = .ok s') : s' = s := by
  have hrun : ∀ {z : Inference TypeId} {s : Structure}, z.structure? = .ok s →
      ∃ root types, z.run ∅ = (.ok root, types) := by
    intro z s h
    rw [structure?] at h
    rcases hz : z.run ∅ with ⟨e | root, types⟩
    · rw [hz] at h
      cases h
    · exact ⟨root, types, rfl⟩
  obtain ⟨a, r₁, ha⟩ := hrun hs
  obtain ⟨b, r₂, hb⟩ := hrun hs'
  obtain rfl := run_eq_of_limits hx hy hxy ha hb
  rw [hs] at hs'
  exact (Except.ok.inj hs').symm

end Inference

open Inference

/-- **An inference fails at the first fault, and the limit does nothing else.**  In an inference
after any calls, and for the structures of a sample, of several samples and of the results of a
query: if there is no clash of digests, the outcome is a failure just if a site of the sample lies
too deep or holds a malformed marker, and the error says what is wrong at the first such site.  What
is accepted under two limits comes out the same under both.  A path is written as a point at the
root, with points between keys and brackets around indices. -/
theorem inference_fails_at_first_fault (limit : Nat) :
    ((∀ (r : Registry) (v : Json), Reached r → NoClash ((observe limit v).run r).1 →
        FailsAtFirst limit (sites .root v) ((observe limit v).run r).1) ∧
      (∀ v : Json, NoClash (inferValue limit v) →
        FailsAtFirst limit (sites .root v) (inferValue limit v)) ∧
      (∀ vs : List Json, NoClash (inferSamples limit vs) →
        FailsAtFirst limit (sites .root (.array vs)) (inferSamples limit vs)) ∧
      ∀ (query : String) (results : List Json), Text.isQueryId query →
        NoClash (inferQuery limit query results) →
          FailsAtFirst limit
            (sitesOfMembers .root (results.mapIdx fun i v ↦
              (query ++ "_query" ++ toString (i + 1), v)))
            (inferQuery limit query results)) ∧
    (∀ limit' : Nat,
      (∀ (r r₁ r₂ : Registry) (v : Json) (a b : TypeId), Reached r →
        (observe limit v).run r = (.ok a, r₁) → (observe limit' v).run r = (.ok b, r₂) →
          b = a ∧ r₂ = r₁) ∧
      (∀ (v : Json) (s s' : Structure),
        inferValue limit v = .ok s → inferValue limit' v = .ok s' → s' = s) ∧
      (∀ (vs : List Json) (s s' : Structure),
        inferSamples limit vs = .ok s → inferSamples limit' vs = .ok s' → s' = s) ∧
      ∀ (query : String) (results : List Json) (s s' : Structure), Text.isQueryId query →
        inferQuery limit query results = .ok s → inferQuery limit' query results = .ok s' →
          s' = s) ∧
    Path.root.text = "." ∧
    ∀ p : Path,
      (∀ key, (p.push (.key key)).text = (if p = .root then "" else p.text ++ ".") ++ key) ∧
      ∀ n, (p.push (.index n)).text =
        (if p = .root then "" else p.text) ++ ("[" ++ toString n ++ "]") := by
  have hvalue : ∀ limit (v : Json), Checks limit (sites .root v) (observe limit v) ∅ :=
    fun _ v ↦ observe_faults wellFormed_empty v
  have hquery : ∀ limit {query} (results : List Json), Text.isQueryId query → Checks limit
      (sitesOfMembers .root (resultMembers query results)) (observeQuery limit query results) ∅ :=
    fun _ _ results hq ↦ observeQuery_faults wellFormed_empty hq results
  refine ⟨⟨fun r v hr hno ↦ ?_, fun v hno ↦ ?_, fun vs hno ↦ ?_, fun query results hq hno ↦ ?_⟩,
    fun limit' ↦ ⟨?_, fun v s s' hs hs' ↦ ?_, fun vs s s' hs hs' ↦ ?_, ?_⟩,
    Path.text_root, fun p ↦ ⟨p.text_push_key, p.text_push_index⟩⟩
  · exact failsAtFirst_run (observe_faults hr.wellFormed v) hno
  · exact failsAtFirst_structure? (hvalue limit v) hno
  · rw [inferSamples_eq] at hno ⊢
    exact failsAtFirst_structure? (hvalue limit _) hno
  · exact failsAtFirst_structure? (hquery limit results hq) hno
  · intro r r₁ r₂ v a b hr ha hb
    have heq := run_eq_of_limits (observe_faults hr.wellFormed v) (observe_faults hr.wellFormed v)
      (observeAt_limit v .root) ha hb
    rw [← heq, ha] at hb
    cases hb
    exact ⟨rfl, rfl⟩
  · exact structure?_eq_of_limits (hvalue limit v) (hvalue limit' v) (observeAt_limit v .root)
      hs hs'
  · rw [inferSamples_eq] at hs hs'
    exact structure?_eq_of_limits (hvalue limit _) (hvalue limit' _) (observeAt_limit _ .root)
      hs hs'
  · intro query results s s' hq hs hs'
    exact structure?_eq_of_limits (hquery limit results hq) (hquery limit' results hq)
      observeQuery_limit hs hs'

/-- An outcome is a failure with a given message, and no internal one. -/
def failsWith {α : Type} (message : String) : Except InferenceError α → Bool
  | .error e => e.message == message && !e.isInternal
  | .ok _ => false

theorem exists_error_of_failsWith {α : Type} {message : String}
    {outcome : Except InferenceError α} (h : failsWith message outcome) :
    ∃ e, outcome = .error e ∧ e.message = message ∧ NoClash outcome := by
  cases outcome with
  | ok a => cases h
  | error e =>
    obtain ⟨hmessage, hinternal⟩ := Bool.and_eq_true_iff.1 h
    refine ⟨e, rfl, eq_of_beq hmessage, fun id he ↦ ?_⟩
    cases he
    cases hinternal

/-- A list with a deep site in it, and a malformed marker behind that. -/
def deepThenMalformed : Json :=
  .array [.object [("rows", .array [.array [.number (.whole 1)]])],
    .object [("$undefined", .bool false)]]

/-- Under a limit of 2 the deep site comes first, under a limit of 4 only the marker is wrong; and
the rows of the example are the same under a limit of 3 and without one to speak of. -/
theorem inference_fails_at_first_fault_deepThenMalformed :
    (∃ e, inferValue 2 deepThenMalformed = .error e ∧
      e.message = "value at `[0].rows[0]` nests deeper than the limit of 2" ∧
      FirstFault 2 (sites .root deepThenMalformed) e) ∧
    (∃ e, inferValue 4 deepThenMalformed = .error e ∧
      e.message = "cannot classify value at `[1]`: `$undefined` expects `true`, got false" ∧
      FirstFault 4 (sites .root deepThenMalformed) e) ∧
    ∃ s s', inferValue 3 (.array unevenRows) = .ok s ∧
      inferValue 256 (.array unevenRows) = .ok s' ∧ s' = s := by
  obtain ⟨e₁, he₁, hmessage₁, hno₁⟩ := exists_error_of_failsWith (by decide +kernel :
    failsWith "value at `[0].rows[0]` nests deeper than the limit of 2"
      (inferValue 2 deepThenMalformed))
  obtain ⟨e₂, he₂, hmessage₂, hno₂⟩ := exists_error_of_failsWith (by decide +kernel :
    failsWith "cannot classify value at `[1]`: `$undefined` expects `true`, got false"
      (inferValue 4 deepThenMalformed))
  obtain ⟨s, hs⟩ := exists_ok_of_isOk
    (by decide +kernel : (inferValue 3 (.array unevenRows)).isOk)
  obtain ⟨s', hs'⟩ := exists_ok_of_isOk
    (by decide +kernel : (inferValue 256 (.array unevenRows)).isOk)
  obtain ⟨⟨-, hvalue₁, -, -⟩, -⟩ := inference_fails_at_first_fault 2
  obtain ⟨⟨-, hvalue₂, -, -⟩, -⟩ := inference_fails_at_first_fault 4
  obtain ⟨-, hlimit, -⟩ := inference_fails_at_first_fault 3
  obtain ⟨-, hsame, -, -⟩ := hlimit 256
  exact ⟨⟨e₁, he₁, hmessage₁, (hvalue₁ _ hno₁).firstFault e₁ he₁⟩,
    ⟨e₂, he₂, hmessage₂, (hvalue₂ _ hno₂).firstFault e₂ he₂⟩,
    s, s', hs, hs', hsame _ s s' hs hs'⟩

end Silhouette
