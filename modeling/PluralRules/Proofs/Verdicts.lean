import PluralRules.Lint
import PluralRules.Proofs.Samples
import PluralRules.Proofs.Selection
import PluralRules.Proofs.Value

/-!
# Checks and selection

The checks apply rules to samples on their own: they try the conditions themselves, one rule after
another, and look at the rule of a sample first. A selector tries the predicates of its clauses in
order. Both come to the same end. A rule and its clause have the same value for every number
(`applies?_eq`), and so the first rule that applies is the first clause that takes the number
(`firstTaking?_eq`). From this follows what every finding about a sample says about the clauses
(`sampleFinding?_cases`).
-/

namespace PluralRules

/-! ### What samples stand for -/

/-- An integer, written without fraction digits and without an exponent. -/
def Quantity.IsPlainInt (q : Quantity) (z : ℤ) : Prop := q.places = 0 ∧ q.exponent = 0 ∧ q.value = z

def FitsInt64 (z : ℤ) : Prop := -2 ^ 63 ≤ z ∧ z ≤ 2 ^ 63 - 1

/-- The numbers that a sample stands for. A range stands for its ends, and if they are plain
integers that are admitted and not far from each other, for every integer between them. -/
inductive Sample.StandsFor (admitted : ℤ → Prop) : Sample → Quantity → Prop
  | single (q : Quantity) : StandsFor admitted (.single q) q
  | least (least greatest : Quantity) : StandsFor admitted (.range least greatest) least
  | greatest (least greatest : Quantity) : StandsFor admitted (.range least greatest) greatest
  | between {least greatest : Quantity} {low high z : ℤ} (hleast : least.IsPlainInt low)
      (hgreatest : greatest.IsPlainInt high) (hlow : admitted low) (hhigh : admitted high)
      (hspan : high - low ≤ 1000) (hle : low ≤ z) (hge : z ≤ high) :
      StandsFor admitted (.range least greatest) (.ofInt z)

/-- A rule lists the numbers that its samples stand for. -/
def Rule.Lists (admitted : ℤ → Prop) (rule : Rule) (q : Quantity) : Prop :=
  ∃ samples ∈ rule.samples, ∃ sample ∈ samples.values, sample.StandsFor admitted q

/-- Among the quantities that texts spell, a plain integer is written in one way only. -/
theorem Quantity.isPlainInt_iff {q : Quantity} {z : ℤ} (h : q.IsSpelled) :
    q.IsPlainInt z ↔ q = .ofInt z := by
  constructor
  · rintro ⟨hplaces, hexponent, hvalue⟩
    have hscale : q.scale = 0 := by
      have hspelled := h.1
      rw [Quantity.places] at hplaces
      omega
    obtain ⟨digits, scale, exponent⟩ := q
    obtain rfl : scale = 0 := hscale
    obtain rfl : exponent = 0 := hexponent
    obtain rfl : digits = z := Int.cast_injective ((Quantity.value_ofInt digits).symm.trans hvalue)
    rfl
  · rintro rfl
    exact ⟨rfl, rfl, Quantity.value_ofInt z⟩

namespace Lint

section Samples

variable {least greatest q : Quantity} {low high : ℤ}

/-- A range is small if its ends are plain integers of 64 bits and not far from each other. -/
theorem smallRange?_eq_some : smallRange? least greatest = some (low, high) ↔
    least.IsPlainInt low ∧ greatest.IsPlainInt high ∧ FitsInt64 low ∧ FitsInt64 high ∧
      low ≤ high ∧ high - low ≤ 1000 := by
  by_cases hplain : (least.places = 0 ∧ least.exponent = 0) ∧ greatest.places = 0 ∧
    greatest.exponent = 0
  · have hends : smallRange? least greatest = some (low, high) ↔
        (least.value = low ∧ FitsInt64 low) ∧ (greatest.value = high ∧ FitsInt64 high) ∧
          low ≤ high ∧ high - low ≤ 1000 := by
      simp [smallRange?, hplain, Quantity.toInt64?_eq_some, Option.bind_eq_some_iff, FitsInt64,
        expansionLimit]
    rw [hends, Quantity.IsPlainInt, Quantity.IsPlainInt]
    tauto
  · have hends : smallRange? least greatest ≠ some (low, high) := by
      simp [smallRange?, hplain]
    refine iff_of_false hends ?_
    rintro ⟨⟨hplaces, hexponent, -⟩, ⟨hplaces', hexponent', -⟩, -⟩
    exact hplain ⟨⟨hplaces, hexponent⟩, hplaces', hexponent'⟩

/-- Counting up from one integer to another gives the integers between them. -/
theorem mem_map_range_ofInt (hle : low ≤ high) :
    q ∈ (List.range ((high - low).toNat + 1)).map (fun (k : Nat) => Quantity.ofInt (low + k)) ↔
      ∃ z, low ≤ z ∧ z ≤ high ∧ q = .ofInt z := by
  rw [List.mem_map]
  constructor
  · rintro ⟨k, hk, rfl⟩
    have hlt := List.mem_range.mp hk
    exact ⟨low + k, by omega, by omega, rfl⟩
  · rintro ⟨z, hz, hz', rfl⟩
    refine ⟨(z - low).toNat, List.mem_range.mpr (by omega), ?_⟩
    have heq : low + ((z - low).toNat : ℤ) = z := by omega
    rw [heq]

/-- The numbers that a sample is checked for are those that it stands for. -/
theorem mem_numbersOf {sample : Sample} (h : sample.IsPrintable) :
    q ∈ numbersOf sample ↔ sample.StandsFor FitsInt64 q := by
  cases sample with
  | single value =>
    rw [numbersOf, List.mem_singleton]
    constructor
    · rintro rfl
      exact .single q
    · rintro ⟨⟩
      rfl
  | ellipsis => exact ⟨nofun, nofun⟩
  | range least greatest =>
    obtain ⟨hleast, hgreatest⟩ := h
    rw [numbersOf]
    cases hsmall : smallRange? least greatest with
    | none =>
      constructor
      · intro hq
        rcases List.mem_pair.mp hq with rfl | rfl
        · exact .least _ _
        · exact .greatest _ _
      · intro hq
        cases hq with
        | least => exact List.mem_cons_self
        | greatest => exact List.mem_cons_of_mem _ List.mem_cons_self
        | between hplain hplain' hlow hhigh hspan hz hz' =>
          -- a number between the ends would make the range one that is expanded
          have hends := smallRange?_eq_some.mpr ⟨hplain, hplain', hlow, hhigh, hz.trans hz', hspan⟩
          cases hsmall.symm.trans hends
    | some ends =>
      obtain ⟨low, high⟩ := ends
      obtain ⟨hplain, hplain', hlow, hhigh, hle, hspan⟩ := smallRange?_eq_some.mp hsmall
      refine (mem_map_range_ofInt hle).trans ⟨?_, ?_⟩
      · rintro ⟨z, hz, hz', rfl⟩
        exact .between hplain hplain' hlow hhigh hspan hz hz'
      · intro hq
        cases hq with
        | least => exact ⟨low, le_rfl, hle, (Quantity.isPlainInt_iff hleast).mp hplain⟩
        | greatest => exact ⟨high, hle, le_rfl, (Quantity.isPlainInt_iff hgreatest).mp hplain'⟩
        | between hother hother' _ _ _ hz hz' =>
          -- an end stands for one integer only
          obtain rfl := Int.cast_injective (hother.2.2.symm.trans hplain.2.2)
          obtain rfl := Int.cast_injective (hother'.2.2.symm.trans hplain'.2.2)
          exact ⟨_, hz, hz', rfl⟩

/-- The numbers that are checked are the ones that a rule lists, if all ends of ranges are integers
of 64 bits. -/
theorem mem_sampleNumbers {rule : Rule} (h : ∀ samples ∈ rule.samples, samples.IsPrintable) :
    q ∈ sampleNumbers rule ↔ rule.Lists FitsInt64 q := by
  simp only [sampleNumbers, List.mem_flatMap, Rule.Lists]
  refine exists_congr fun samples => and_congr_right fun hsamples => ?_
  exact exists_congr fun sample => and_congr_right fun hsample =>
    mem_numbersOf ((h samples hsamples).values sample hsample)

end Samples

end Lint

/-! ### Walks through clauses -/

namespace Clause

variable {q : Quantity} {clause : Clause} {clauses front back : List Clause}

/-- The walk through clauses meets no error and ends at the clause in a given place. -/
def StopsAt (q : Quantity) (clauses : List Clause) (i : Nat) : Prop :=
  (∃ clause, clauses[i]? = some clause ∧ clause.takes q = .ok true) ∧
    ∀ earlier ∈ clauses.take i, earlier.takes q = .ok false

theorem firstTaking?_cons (q : Quantity) (clause : Clause) (more : List Clause) :
    firstTaking? q (clause :: more) =
      (clause.takes q >>= fun b => if b then .ok (some clause) else firstTaking? q more) := rfl

/-- The walk through clauses fails only as a clause does. -/
theorem failsOnly_firstTaking? {E : SelectError → Prop}
    (h : ∀ clause ∈ clauses, FailsOnly E (clause.takes q)) :
    FailsOnly E (firstTaking? q clauses) := by
  induction clauses with
  | nil => exact trivial
  | cons clause more ih =>
    obtain ⟨hclause, hmore⟩ := List.forall_mem_cons.mp h
    rw [firstTaking?_cons]
    refine hclause.bind fun b _ => ?_
    cases b with
    | true => exact trivial
    | false => exact ih hmore

/-- The clauses behind others are tried only if those take nothing. -/
theorem firstTaking?_append (q : Quantity) (front back : List Clause) :
    firstTaking? q (front ++ back) =
      (firstTaking? q front >>= fun found =>
        if found.isSome then .ok found else firstTaking? q back) := by
  induction front with
  | nil => rfl
  | cons clause front ih =>
    rw [List.cons_append, firstTaking?_cons, firstTaking?_cons]
    cases clause.takes q with
    | error error => rfl
    | ok b =>
      cases b with
      | true => rfl
      | false => exact ih

/-- No clause takes a quantity exactly if each says that it does not. -/
theorem firstTaking?_eq_none : firstTaking? q clauses = .ok none ↔
    ∀ clause ∈ clauses, clause.takes q = .ok false := by
  induction clauses with
  | nil => exact ⟨fun _ => nofun, fun _ => rfl⟩
  | cons clause clauses ih =>
    rw [firstTaking?_cons, List.forall_mem_cons, ← ih]
    cases clause.takes q with
    | error error => exact ⟨nofun, nofun⟩
    | ok b =>
      cases b with
      | true => exact ⟨nofun, nofun⟩
      | false => exact ⟨fun h => ⟨rfl, h⟩, fun h => h.2⟩

/-- The walk ends at a clause exactly if the clause takes the quantity and none before it does. -/
theorem stopsAt_iff : StopsAt q (front ++ clause :: back) front.length ↔
    clause.takes q = .ok true ∧ firstTaking? q front = .ok none := by
  rw [StopsAt, List.take_left, firstTaking?_eq_none]
  simp

/-- The walk through more clauses is over where the walk through the first of them is. -/
theorem firstTaking?_append_of_some (h : firstTaking? q front = .ok (some clause))
    (back : List Clause) : firstTaking? q (front ++ back) = .ok (some clause) := by
  rw [firstTaking?_append, h]
  rfl

theorem firstTaking?_of_stopsAt (h : StopsAt q (front ++ clause :: back) front.length) :
    firstTaking? q (front ++ clause :: back) = .ok (some clause) := by
  obtain ⟨htakes, hfront⟩ := stopsAt_iff.mp h
  rw [firstTaking?_append, hfront]
  show firstTaking? q (clause :: back) = _
  rw [firstTaking?_cons, htakes]
  rfl

/-- A selector selects the case of the first clause that takes the quantity. -/
theorem select_of_firstTaking? {selector : Selector}
    (h : firstTaking? q selector.clauses = .ok (some clause)) :
    selector.select q = .ok clause.case := by
  have hne : selector.clauses.isEmpty = false := by
    cases hclauses : selector.clauses with
    | nil => rw [hclauses] at h; cases h
    | cons _ _ => rfl
  rw [Selector.select, Selector.choose, hne, h]
  rfl

end Clause

/-! ### Rules and their clauses -/

namespace Lint

variable {q : Quantity} {rule : Rule} {clause : Clause} {rules earlier : List Rule}
  {clauses before : List Clause}

/-- A rule with a clause applies where the predicate of the clause holds. -/
theorem applies?_eq (h : Clause.ofRule rule = .ok clause) (q : Quantity) :
    applies? q rule = (clause.predicate.eval q).map some := by
  cases he : rule.condition with
  | some e =>
    cases (Clause.ofRule_of_condition he).symm.trans h
    rw [applies?, he, Predicate.eval_ofExpr]
  | none =>
    have hcatchAll : clause.isCatchAll = rule.isCatchAll := Clause.isCatchAll_of_ofRule h
    rw [Clause.ofRule, he] at h
    rw [applies?, he]
    dsimp only at h ⊢
    split at h
    · next hrule => cases h; rw [hrule]; rfl
    · cases h

/-- The first rule that applies is the rule of the first clause that takes the number. -/
theorem firstTaking?_eq
    (h : List.Forall₂ (fun rule clause => Clause.ofRule rule = .ok clause) rules clauses)
    (q : Quantity) : (Clause.firstTaking? q clauses).map (·.map Clause.case) =
      ((firstApplying? q rules).map (·.map Rule.case)).mapError .eval := by
  induction h with
  | nil => rfl
  | @cons rule clause rules clauses hclause _ ih =>
    rw [Clause.firstTaking?_cons, firstApplying?, applies?_eq hclause, Clause.takes]
    cases clause.predicate.eval q with
    | error error => rfl
    | ok b =>
      cases b with
      | true =>
        have hcase : clause.case = rule.case := congrArg Label.case (Clause.label_of_ofRule hclause)
        exact congrArg (fun case => Except.ok (some case)) hcase
      | false => exact ih

/-- Checking a sample is trying the clause of its rule and then the clauses before it. -/
theorem checkSample_eq (hrule : Clause.ofRule rule = .ok clause)
    (hearlier : List.Forall₂ (fun rule clause => Clause.ofRule rule = .ok clause) earlier before)
    (q : Quantity) : (checkSample earlier rule q).mapError .eval =
      (clause.takes q >>= fun b =>
        if b then (Clause.firstTaking? q before).map fun found =>
          found.map fun found => .shadowed ⟨rule.line, rule.case, q⟩ found.case
        else .ok (some (.mismatch ⟨rule.line, rule.case, q⟩))) := by
  have hwalk := firstTaking?_eq hearlier q
  rw [checkSample, applies?_eq hrule, Clause.takes]
  cases clause.predicate.eval q with
  | error error => rfl
  | ok b =>
    cases b with
    | false => rfl
    | true =>
      have hsplit : (Clause.firstTaking? q before).map (fun found => found.map fun found =>
          Finding.shadowed ⟨rule.line, rule.case, q⟩ found.case) =
            ((Clause.firstTaking? q before).map (·.map Clause.case)).map
              (·.map (Finding.shadowed ⟨rule.line, rule.case, q⟩)) := by
        rcases Clause.firstTaking? q before with error | _ | found <;> rfl
      show ((firstApplying? q earlier).bind _).mapError _ = (Clause.firstTaking? q before).map _
      rw [hsplit, hwalk]
      rcases firstApplying? q earlier with error | _ | found <;> rfl

theorem sampleFinding?_of_ok {finding : Option Finding}
    (h : (checkSample earlier rule q).mapError SelectError.eval = .ok finding) :
    sampleFinding? earlier rule q = finding := by
  rw [sampleFinding?, mapError_eq_ok.mp h]

/-- A check that fails is reported with its cause. -/
theorem sampleFinding?_of_error {error : SelectError}
    (h : (checkSample earlier rule q).mapError SelectError.eval = .error error) :
    ∃ cause, error = .eval cause ∧
      sampleFinding? earlier rule q = some (.failed ⟨rule.line, rule.case, q⟩ cause) := by
  cases hcheck : checkSample earlier rule q with
  | error cause =>
    rw [hcheck] at h
    exact ⟨cause, (Except.error.inj h).symm, by rw [sampleFinding?, hcheck]⟩
  | ok finding =>
    rw [hcheck] at h
    cases h

/-- All that can be found about a sample, by what the clause of its rule and the clauses before it
say. -/
theorem sampleFinding?_cases (hrule : Clause.ofRule rule = .ok clause)
    (hearlier : List.Forall₂ (fun rule clause => Clause.ofRule rule = .ok clause) earlier before)
    (q : Quantity) :
    (∃ cause, (clause.takes q = .error (.eval cause) ∨
        clause.takes q = .ok true ∧ Clause.firstTaking? q before = .error (.eval cause)) ∧
      sampleFinding? earlier rule q = some (.failed ⟨rule.line, rule.case, q⟩ cause)) ∨
    (clause.takes q = .ok false ∧
      sampleFinding? earlier rule q = some (.mismatch ⟨rule.line, rule.case, q⟩)) ∨
    (clause.takes q = .ok true ∧ Clause.firstTaking? q before = .ok none ∧
      sampleFinding? earlier rule q = none) ∨
    ∃ found, clause.takes q = .ok true ∧ Clause.firstTaking? q before = .ok (some found) ∧
      sampleFinding? earlier rule q = some (.shadowed ⟨rule.line, rule.case, q⟩ found.case) := by
  have hcheck := checkSample_eq hrule hearlier q
  cases htakes : clause.takes q with
  | error error =>
    rw [htakes] at hcheck
    obtain ⟨cause, rfl, hfinding⟩ := sampleFinding?_of_error hcheck
    exact Or.inl ⟨cause, Or.inl rfl, hfinding⟩
  | ok takes =>
    rw [htakes] at hcheck
    cases takes with
    | false => exact Or.inr (Or.inl ⟨rfl, sampleFinding?_of_ok hcheck⟩)
    | true =>
      cases hwalk : Clause.firstTaking? q before with
      | error error =>
        obtain ⟨cause, rfl, hfinding⟩ :=
          sampleFinding?_of_error (hcheck.trans (congrArg (Except.map _) hwalk))
        exact Or.inl ⟨cause, Or.inr ⟨rfl, rfl⟩, hfinding⟩
      | ok found =>
        have hfinding := sampleFinding?_of_ok (hcheck.trans (congrArg (Except.map _) hwalk))
        cases found with
        | none => exact Or.inr (Or.inr (Or.inl ⟨rfl, rfl, hfinding⟩))
        | some found => exact Or.inr (Or.inr (Or.inr ⟨found, rfl, rfl, hfinding⟩))

section Verdicts

variable (hrule : Clause.ofRule rule = .ok clause)
  (hearlier : List.Forall₂ (fun rule clause => Clause.ofRule rule = .ok clause) earlier before)

include hrule hearlier

/-- Nothing is found if the clause of the rule takes the number and none before it does. -/
theorem sampleFinding?_eq_none : sampleFinding? earlier rule q = none ↔
    clause.takes q = .ok true ∧ Clause.firstTaking? q before = .ok none := by
  rcases sampleFinding?_cases hrule hearlier q with ⟨cause, hfails, hfinding⟩ | ⟨htakes, hfinding⟩ |
    ⟨htakes, hwalk, hfinding⟩ | ⟨found, htakes, hwalk, hfinding⟩
  · rcases hfails with htakes | ⟨-, hwalk⟩
    · simp [hfinding, htakes]
    · simp [hfinding, hwalk]
  · simp [hfinding, htakes]
  · simp [hfinding, htakes, hwalk]
  · simp [hfinding, hwalk]

/-- A mismatch is reported exactly if the clause of the rule does not take the sample. -/
theorem sampleFinding?_eq_mismatch :
    sampleFinding? earlier rule q = some (.mismatch ⟨rule.line, rule.case, q⟩) ↔
      clause.takes q = .ok false := by
  rcases sampleFinding?_cases hrule hearlier q with ⟨cause, hfails, hfinding⟩ | ⟨htakes, hfinding⟩ |
    ⟨htakes, -, hfinding⟩ | ⟨found, htakes, -, hfinding⟩
  · rcases hfails with htakes | ⟨htakes, -⟩ <;> simp [hfinding, htakes]
  all_goals simp [hfinding, htakes]

/-- The case that takes a sample away is that of the first clause before that takes the number. -/
theorem firstTaking?_of_shadowed {site : SampleSite} {case : String}
    (h : sampleFinding? earlier rule q = some (.shadowed site case)) :
    ∃ found, Clause.firstTaking? q before = .ok (some found) ∧ found.case = case := by
  rcases sampleFinding?_cases hrule hearlier q with ⟨cause, -, hfinding⟩ | ⟨-, hfinding⟩ |
    ⟨-, -, hfinding⟩ | ⟨found, -, hwalk, hfinding⟩
  all_goals cases h.symm.trans hfinding
  exact ⟨found, hwalk, rfl⟩

end Verdicts

/-- A place among rules is a place among their clauses. -/
theorem exists_clause {i : Nat}
    (h : List.Forall₂ (fun rule clause => Clause.ofRule rule = .ok clause) rules clauses)
    (hi : rules[i]? = some rule) : ∃ front back before clause after, rules = front ++ rule :: back ∧
      clauses = before ++ clause :: after ∧ before.length = i ∧ Clause.ofRule rule = .ok clause ∧
        List.Forall₂ (fun rule clause => Clause.ofRule rule = .ok clause) front before := by
  obtain ⟨hlt, rfl⟩ := List.getElem?_eq_some_iff.mp hi
  have hsplit : rules = rules.take i ++ rules[i] :: rules.drop (i + 1) := by
    rw [List.getElem_cons_drop, List.take_append_drop]
  rw [hsplit] at h
  obtain ⟨before, _, rfl, hbefore, hafter⟩ := forall₂_append_left h
  obtain ⟨clause, after, hclause, -, rfl⟩ := List.forall₂_cons_left_iff.mp hafter
  refine ⟨_, _, before, clause, after, hsplit, rfl, ?_, hclause, hbefore⟩
  rw [← hbefore.length_eq, List.length_take_of_le hlt.le]

end Lint

end PluralRules
