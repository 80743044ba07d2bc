import PluralRules.Proofs.Trees

/-!
# What may be wrong with a line

A text that is no line of rule text at all is unreadable (`FaultKind.unreadable`). A line that can
be read may still have faults, and which ones is said part by part: of an entry (`Entry.Complains`),
of a phrase by itself (`Phrase.Complains`) and of the line (`Line.Complains`).

Reading a rule from a line fails with one of these complaints and with nothing else
(`Line.failsOnly_ofLine`). So a rule is unreadable exactly if its text is no line
(`Rule.unreadable_iff_not_line`): the numbers that the grammar of phrases lets through are all
numerals, and no other step can call a line unreadable.
-/

namespace PluralRules

open Grammar

/-! ### Kinds of faults -/

/-- What is wrong with a line, without the texts that show it. It is `unreadable` if it is no line
of rule text, or if a number in it is no numeral. -/
inductive FaultKind where
  | unreadable
  | repeatedCondition
  | unknownOperator
  | invalidSample
  | divisorOutOfRange
  | misplacedSet
  | unknownKey
  | invalidValue
  deriving DecidableEq, Repr

def ParseFault.kind : ParseFault → FaultKind
  | .unexpected _ | .badNumeral _ => .unreadable
  | .repeatedCondition .. => .repeatedCondition
  | .unknownOperator _ => .unknownOperator
  | .invalidSample _ => .invalidSample
  | .divisorOutOfRange _ => .divisorOutOfRange
  | .misplacedSet _ => .misplacedSet
  | .unknownKey .. => .unknownKey
  | .invalidValue .. => .invalidValue

/-! ### Complaints -/

/-- Complaints about an entry: its key is unknown, or its value is none that the key takes. -/
inductive Entry.Complains (entry : Entry) : Complaint → Prop
  | key : Complains entry
      (entry.key.complain fun key => .unknownKey key (Suggestion.closest key Label.keys))
  | value : Complains entry (entry.value.complain (.invalidValue entry.key.toString))

/-- Complaints about a phrase that leave aside the phrases within it: no operator is spelled like
the one before the operand or between the operands, the divisor is spelled out and cannot divide, or
the phrase is `misplaced`, as a set that stands where none may or as something else that stands
where only a number may. -/
inductive Phrase.Complains : Phrase → Complaint → Prop
  | sign {operator : Excerpt} {operand : Phrase} : UnaryOp.ofSymbol? operator.toString = none →
      Complains (.prefixed operator operand) (operator.complain .unknownOperator)
  | operator {operator : Excerpt} {left right : Phrase} :
      BinaryOp.ofSymbol? operator.toString = none →
      Complains (.joined operator left right) (operator.complain .unknownOperator)
  | divisor {operator : Excerpt} {left right : Phrase} {divisor : Expr} :
      BinaryOp.ofSymbol? operator.toString = some .modulo → right.meaning false = .ok divisor →
      Phrase.canDivide divisor = false →
      Complains (.joined operator left right) (right.excerpt.complain .divisorOutOfRange)
  | misplaced {p : Phrase} : (∀ e, p ≠ .number e) → Complains p p.misplaced

/-- Complaints about a phrase or a phrase within it. -/
def Phrase.IsFaulty (p : Phrase) (complaint : Complaint) : Prop :=
  ∃ node ∈ p.nodes, node.Complains complaint

/-- Complaints about a line. A `condition` is complained about if it is the second one, whether or
not there are more after it. -/
inductive Line.Complains (line : Line) : Complaint → Prop
  | entry {entries : List Entry} {entry : Entry} {complaint : Complaint} :
      line.info = some entries →
      entry ∈ entries → entry.Complains complaint → Complains line complaint
  | condition {segment : CaseSegment} {first second : WrittenCondition}
      {more : List WrittenCondition} :
      line.case = some segment → segment.conditions = first :: second :: more →
      Complains line (second.text.complain (.repeatedCondition segment.name.toString))
  | phrase {segment : CaseSegment} {only : WrittenCondition} {complaint : Complaint} :
      line.case = some segment → segment.conditions = [only] → only.phrase.IsFaulty complaint →
      Complains line complaint
  | sample {segment : SampleSegment} {value : Excerpt} : segment ∈ line.samples →
      value ∈ segment.values →
      Complains line (value.complain .invalidSample)

/-! ### Entries and samples -/

/-- A value can only fail with a complaint about its entry. -/
theorem Label.failsOnly_valueOf {α : Type} (entry : Entry) (read : List Char → Option α) :
    FailsOnly entry.Complains (valueOf entry read) := by
  unfold valueOf
  split
  · exact trivial
  · split
    · exact trivial
    · exact .value

/-- An entry can only fail with a complaint about itself. -/
theorem Label.failsOnly_withEntry (entry : Entry) (label : Label) :
    FailsOnly entry.Complains (label.withEntry entry) := by
  unfold withEntry
  split
  · exact trivial
  · exact trivial
  · exact trivial
  · exact (failsOnly_valueOf entry _).bind fun _ _ => trivial
  · exact (failsOnly_valueOf entry _).bind fun _ _ => trivial
  · exact .key

/-- A sample can only fail as an invalid sample. -/
theorem Sample.failsOnly_ofExcerpt (e : Excerpt) :
    FailsOnly (· = e.complain .invalidSample) (ofExcerpt e) := by
  unfold ofExcerpt
  split
  · exact trivial
  · exact rfl

/-- A list of samples can only fail because of one of its samples. -/
theorem Samples.failsOnly_ofSegment (segment : SampleSegment) :
    FailsOnly (fun complaint => ∃ value ∈ segment.values, complaint = value.complain .invalidSample)
      (ofSegment segment) := by
  refine (failsOnly_mapM fun value hvalue => ?_).bind fun _ _ => trivial
  exact (Sample.failsOnly_ofExcerpt value).mono fun _ h => ⟨value, hvalue, h⟩

/-! ### Phrases -/

namespace Phrase

/-- All numbers in a phrase are numerals. -/
def HasNumerals (p : Phrase) : Prop :=
  ∀ e, number e ∈ p.nodes → ∃ q, Quantity.ofChars e.text = .ok q

theorem mem_nodes_self (p : Phrase) : p ∈ p.nodes := by cases p <;> simp [nodes]

variable {p q : Phrase} {operator : Excerpt} {left right : Phrase}

/-- If all numbers in a phrase are numerals, so are those in its parts. -/
theorem HasNumerals.mono (h : p.HasNumerals) (hsub : ∀ node ∈ q.nodes, node ∈ p.nodes) :
    q.HasNumerals :=
  fun e he => h e (hsub _ he)

theorem IsFaulty.mono {complaint : Complaint} (h : q.IsFaulty complaint)
    (hsub : ∀ node ∈ q.nodes, node ∈ p.nodes) : p.IsFaulty complaint := by
  obtain ⟨node, hnode, hcomplains⟩ := h
  exact ⟨node, hsub node hnode, hcomplains⟩

/-- To be misplaced is a fault of the phrase itself. -/
theorem isFaulty_misplaced (h : ∀ e, p ≠ number e) : p.IsFaulty p.misplaced :=
  ⟨p, mem_nodes_self p, .misplaced h⟩

theorem nodes_operand {operand : Phrase} :
    ∀ node ∈ operand.nodes, node ∈ (prefixed operator operand).nodes :=
  fun _ h => List.mem_cons_of_mem _ h

theorem nodes_left : ∀ node ∈ left.nodes, node ∈ (joined operator left right).nodes :=
  fun _ h => List.mem_cons_of_mem _ (List.mem_append_left _ h)

theorem nodes_right : ∀ node ∈ right.nodes, node ∈ (joined operator left right).nodes :=
  fun _ h => List.mem_cons_of_mem _ (List.mem_append_right _ h)

theorem nodes_least {dots : Excerpt} {least greatest : Phrase} :
    ∀ node ∈ least.nodes, node ∈ (span dots least greatest).nodes :=
  fun _ h => List.mem_cons_of_mem _ (List.mem_append_left _ h)

theorem nodes_greatest {dots : Excerpt} {least greatest : Phrase} :
    ∀ node ∈ greatest.nodes, node ∈ (span dots least greatest).nodes :=
  fun _ h => List.mem_cons_of_mem _ (List.mem_append_right _ h)

theorem nodes_item {first item : Phrase} {more : List Phrase} (hitem : item ∈ first :: more) :
    ∀ node ∈ item.nodes, node ∈ (list first more).nodes := by
  intro node hnode
  refine List.mem_cons_of_mem _ ?_
  exact mem_itemNodes.mpr ⟨item, hitem, hnode⟩

theorem nodes_inner {inner : Phrase} : ∀ node ∈ inner.nodes, node ∈ (paren inner).nodes :=
  fun _ h => List.mem_cons_of_mem _ h

theorem failsOnly_quantity {E : Complaint → Prop} {e : Excerpt}
    (h : ∃ q, Quantity.ofChars e.text = .ok q) : FailsOnly E e.quantity := by
  obtain ⟨q, hq⟩ := h
  rw [Excerpt.quantity, hq]
  exact trivial

/-- An end of a range can only fail with a complaint about itself. -/
theorem failsOnly_bound (h : p.HasNumerals) : FailsOnly p.IsFaulty p.bound := by
  cases p with
  | number e => exact failsOnly_quantity (h e (mem_nodes_self _))
  | _ => exact isFaulty_misplaced (by simp)

/-- What a phrase is faulty for, any phrase around it is faulty for. -/
theorem failsOnly_of_nodes {α : Type} {x : Except Complaint α} (h : FailsOnly q.IsFaulty x)
    (hsub : ∀ node ∈ q.nodes, node ∈ p.nodes) : FailsOnly p.IsFaulty x :=
  h.mono fun _ hfault => hfault.mono hsub

/-- A range can only fail with a complaint about itself or one of its ends. -/
theorem failsOnly_rangeOf {dots : Excerpt} {least greatest : Phrase}
    (h : (span dots least greatest).HasNumerals) :
    FailsOnly (span dots least greatest).IsFaulty (rangeOf least greatest) := by
  have hleast := failsOnly_bound (h.mono nodes_least)
  have hgreatest := failsOnly_bound (h.mono nodes_greatest)
  exact (failsOnly_of_nodes hleast nodes_least).bind fun _ _ =>
    (failsOnly_of_nodes hgreatest nodes_greatest).bind fun _ _ => trivial

theorem failsOnly_element (h : p.HasNumerals) : FailsOnly p.IsFaulty p.element := by
  cases p with
  | number e => exact (failsOnly_quantity (h e (mem_nodes_self _))).bind fun _ _ => trivial
  | span dots least greatest => exact failsOnly_rangeOf h
  | _ => exact isFaulty_misplaced (by simp)

/-- An operator before an operand can only fail with a complaint about itself. -/
theorem failsOnly_unaryOp {operand : Phrase} :
    FailsOnly (prefixed operator operand).IsFaulty (unaryOp operator) := by
  unfold unaryOp
  split
  · exact trivial
  · next hnone => exact ⟨_, mem_nodes_self _, .sign hnone⟩

theorem failsOnly_binaryOp :
    FailsOnly (joined operator left right).IsFaulty (binaryOp operator) := by
  unfold binaryOp
  split
  · exact trivial
  · next hnone => exact ⟨_, mem_nodes_self _, .operator hnone⟩

/-- A phrase whose numbers are numerals fails to mean an expression only by a complaint about one of
its nodes. The recursion is that of the meaning. -/
theorem failsOnly_meaning : ∀ {p : Phrase} (b : Bool), p.HasNumerals →
    FailsOnly p.IsFaulty (p.meaning b)
  | number e, _, h => (failsOnly_quantity (h e (mem_nodes_self _))).bind fun _ _ => trivial
  | word _, _, _ => trivial
  | truth _, _, _ => trivial
  | prefixed operator operand, _, h => by
    have hoperand := failsOnly_meaning false (h.mono nodes_operand)
    refine failsOnly_unaryOp.bind fun op _ => FailsOnly.bind ?_ fun _ _ => trivial
    exact failsOnly_of_nodes hoperand nodes_operand
  | joined operator left right, _, h => by
    refine failsOnly_binaryOp.bind fun op hop => ?_
    have hleft := failsOnly_meaning op.isRelational (h.mono nodes_left)
    have hright := failsOnly_meaning op.isRelational (h.mono nodes_right)
    refine (failsOnly_of_nodes hleft nodes_left).bind fun l _ => ?_
    refine (failsOnly_of_nodes hright nodes_right).bind fun r hr => ?_
    -- the divisor is looked at last, when both sides mean something
    split
    · next hdivide =>
      obtain ⟨hmodulo, hdivide⟩ := Bool.and_eq_true_iff.mp hdivide
      obtain rfl : op = .modulo := beq_iff_eq.mp hmodulo
      refine ⟨_, mem_nodes_self _, .divisor (binaryOp_eq_ok.mp hop) hr ?_⟩
      exact Bool.not_eq_true' _ ▸ hdivide
    · exact trivial
  | span dots least greatest, b, h => by
    rw [meaning]
    cases b with
    | false => exact isFaulty_misplaced (by simp)
    | true => exact failsOnly_rangeOf h
  | list first more, b, h => by
    rw [meaning]
    cases b with
    | false => exact isFaulty_misplaced (by simp)
    | true =>
      refine (failsOnly_mapM fun item hitem => ?_).bind fun _ _ => trivial
      exact failsOnly_of_nodes (failsOnly_element (h.mono (nodes_item hitem))) (nodes_item hitem)
  | paren inner, b, h => by
    have hinner := failsOnly_meaning b (h.mono nodes_inner)
    exact (failsOnly_of_nodes hinner nodes_inner).bind fun _ _ => trivial

end Phrase

/-! ### Numbers of conditions -/

/-- The numbers in a value that has been read are written as conditions write numbers. -/
theorem Grammar.IsValue.isNumberText {k : Nat} {p : Phrase} (h : IsValue k p) :
    ∀ {e : Excerpt}, p = .number e → IsNumberText e.text := by
  induction h with
  | number htext => rintro _ ⟨⟩; exact htext
  | looser _ ih => exact ih
  | _ => exact nofun

/-- A number alone is no condition. -/
theorem Grammar.IsCondition.ne_number {k : Nat} {p : Phrase} (h : IsCondition k p) (e : Excerpt) :
    p ≠ .number e := by
  induction h with
  | looser _ ih => exact ih
  | _ => exact nofun

/-- Every number that is read within a condition is a numeral. -/
theorem Grammar.IsCondition.hasNumerals {k : Nat} {p : Phrase} (h : IsCondition k p) :
    p.HasNumerals := by
  intro e he
  rcases h.of_mem_nodes _ he with ⟨_, hvalue⟩ | ⟨_, hcondition⟩
  · obtain ⟨q, hq, -⟩ := Quantity.ofChars_of_isNumberText (hvalue.isNumberText rfl)
    exact ⟨q, hq⟩
  · exact absurd rfl (hcondition.ne_number e)

/-! ### Lines -/

namespace Line

variable {s : List Char} {line : Line} {complaint : Complaint}

/-- The numbers in a condition that has been read are numerals. -/
theorem hasNumerals_of_read {segment : CaseSegment} (h : read s = .ok line)
    (hsegment : line.case = some segment) : ∀ c ∈ segment.conditions, c.phrase.HasNumerals := by
  obtain ⟨-, hconditions⟩ := caseSegment_of_read h hsegment (takes_conditionReader closed_layers)
  exact fun c hc => (hconditions c hc).hasNumerals

/-- The entries of a label can only fail with a complaint about the line. -/
theorem failsOnly_ofEntries (line : Line) :
    FailsOnly line.Complains (Label.ofEntries (line.info.getD [])) := by
  refine failsOnly_foldlM (fun entry hentry label => ?_) _
  cases hinfo : line.info with
  | none => rw [hinfo] at hentry; cases hentry
  | some entries =>
    rw [hinfo] at hentry
    exact (Label.failsOnly_withEntry entry label).mono fun _ h => .entry hinfo hentry h

/-- The condition of a case can only fail with a complaint about the line. -/
theorem failsOnly_conditionOf {segment : CaseSegment} (hsegment : line.case = some segment)
    (hnumerals : ∀ c ∈ segment.conditions, c.phrase.HasNumerals) :
    FailsOnly line.Complains (Rule.conditionOf segment) := by
  unfold Rule.conditionOf
  split
  · exact trivial
  · next only honly =>
    have hphrase := hnumerals only (honly ▸ List.mem_cons_self)
    refine FailsOnly.bind ?_ fun _ _ => trivial
    exact (Phrase.failsOnly_meaning false hphrase).mono fun _ h => .phrase hsegment honly h
  · next first second more hmore => exact .condition hsegment hmore

theorem failsOnly_samples (line : Line) :
    FailsOnly line.Complains (line.samples.mapM Samples.ofSegment) := by
  refine failsOnly_mapM fun segment hsegment => ?_
  apply (Samples.failsOnly_ofSegment segment).mono
  rintro _ ⟨value, hvalue, rfl⟩
  exact .sample hsegment hvalue

/-- A line that has been read fails to give a rule only by a complaint about one of its parts. -/
theorem failsOnly_ofLine (h : read s = .ok line) (n : Nat) :
    FailsOnly line.Complains (Rule.ofLine n line) := by
  unfold Rule.ofLine
  refine (failsOnly_ofEntries line).bind fun label _ => ?_
  cases hcase : line.case with
  | none => exact (failsOnly_samples line).bind fun _ _ => trivial
  | some segment =>
    refine (failsOnly_conditionOf hcase (hasNumerals_of_read h hcase)).bind fun condition _ => ?_
    exact (failsOnly_samples line).bind fun _ _ => trivial

/-- No complaint about a line calls it unreadable. -/
theorem Complains.kind_ne (h : line.Complains complaint) : complaint.fault.kind ≠ .unreadable := by
  cases h with
  | entry _ _ h => cases h <;> nofun
  | condition => nofun
  | phrase _ _ h =>
    obtain ⟨node, -, h⟩ := h
    cases h <;> nofun
  | sample => nofun

end Line

/-! ### Rules -/

namespace Rule

/-- How a text fails to be a rule: it is no line, or it is one with a fault. -/
theorem exists_complaint_of_ofChars {n : Nat} {s : List Char} {e : ParseError}
    (h : ofChars n s = .error e) : ∃ complaint : Complaint, e = complaint.locate n s ∧
      ((∃ rest, Line.read s = .error rest ∧ complaint = unread rest) ∨
        ∃ line, Line.read s = .ok line ∧ line.Complains complaint) := by
  unfold ofChars readLine at h
  cases hread : Line.read s with
  | error rest =>
    rw [hread] at h
    cases h
    exact ⟨unread rest, rfl, Or.inl ⟨rest, rfl, rfl⟩⟩
  | ok line =>
    rw [hread] at h
    have hfails := Line.failsOnly_ofLine hread n
    change (ofLine n line).mapError _ = _ at h
    cases hrule : ofLine n line with
    | ok rule => rw [hrule] at h; cases h
    | error complaint =>
      rw [hrule] at h hfails
      cases h
      exact ⟨complaint, rfl, Or.inr ⟨line, rfl, hfails⟩⟩

/-- A text that can be read as a line is parsed by the parts of the line. -/
theorem parse_of_read {text : String} {line : Line} (h : Line.read text.toList = .ok line) :
    parse text = ofParts text.toList line := by
  rw [parse, ofChars, readLine, h]
  rfl

/-- What is no line and what is no rule are told apart. A text is unreadable as a rule exactly if it
cannot be read as a line. If it can, then the parts of the line are all that is needed to get the
same rule or the same error, the error does not call the text unreadable, and every number in a
condition is a numeral. -/
theorem unreadable_iff_not_line (text : String) :
    ((∃ e, parse text = .error e ∧ e.fault.kind = .unreadable) ↔
      ∃ rest, Line.read text.toList = .error rest) ∧
    ∀ line, Line.read text.toList = .ok line →
      parse text = ofParts text.toList line ∧
      (∀ e, ofParts text.toList line = .error e → e.fault.kind ≠ .unreadable) ∧
      ∀ segment, line.case = some segment → ∀ c ∈ segment.conditions, ∀ e,
        .number e ∈ c.phrase.nodes →
        ∃ q, Quantity.ofChars e.text = .ok q := by
  have hkind : ∀ line, Line.read text.toList = .ok line → ∀ e, parse text = .error e →
      e.fault.kind ≠ .unreadable := by
    intro line hline e he
    obtain ⟨complaint, rfl, ⟨rest, hrest, -⟩ | ⟨_, -, hcomplains⟩⟩ := exists_complaint_of_ofChars he
    · cases hline.symm.trans hrest
    · exact hcomplains.kind_ne
  refine ⟨⟨?_, ?_⟩, fun line hline => ⟨parse_of_read hline, ?_, ?_⟩⟩
  · rintro ⟨e, he, hunreadable⟩
    cases hread : Line.read text.toList with
    | error rest => exact ⟨rest, rfl⟩
    | ok line => exact absurd hunreadable (hkind line hread e he)
  · rintro ⟨rest, hread⟩
    refine ⟨(unread rest).locate 1 text.toList, ?_, rfl⟩
    rw [parse, ofChars, readLine, hread]
    rfl
  · rw [← parse_of_read hline]
    exact hkind line hline
  · exact fun segment hsegment => Line.hasNumerals_of_read hline hsegment

/-- A text that ends in the middle of a number, and a line with numbers of all forms and a divisor
that is zero. -/
theorem unreadable_iff_not_line_of_numbers :
    let text := "few: n mod 0.0 = 007, 1.50..99999999999999999999"
    (∃ e, parse "few: n = 1." = .error e ∧ e.fault.kind = .unreadable) ∧
    ∃ line segment only, Line.read text.toList = .ok line ∧ line.case = some segment ∧
      segment.conditions = [only] ∧ parse text = ofParts text.toList line ∧
      (∃ e, ofParts text.toList line = .error e ∧ e.fault.kind ≠ .unreadable) ∧
      ∀ e, .number e ∈ only.phrase.nodes → ∃ q, Quantity.ofChars e.text = .ok q := by
  intro text
  have hunread : ∃ rest, Line.read "few: n = 1.".toList = .error rest := by
    have hnone : (Line.read "few: n = 1.".toList).toOption.isNone = true := by decide +kernel
    cases hline : Line.read "few: n = 1.".toList with
    | error rest => exact ⟨rest, rfl⟩
    | ok line => rw [hline] at hnone; cases hnone
  refine ⟨(unreadable_iff_not_line "few: n = 1.").1.mpr hunread, ?_⟩
  have hread :
      (Line.read text.toList).toOption.any (·.case.any (·.conditions.length == 1)) = true := by
    decide +kernel
  have herror : ∃ e, parse text = .error e :=
    ⟨⟨⟨1, 12⟩, .divisorOutOfRange "0.0"⟩, by decide +kernel⟩
  cases hline : Line.read text.toList with
  | error rest => rw [hline] at hread; cases hread
  | ok line =>
    rw [hline] at hread
    change line.case.any _ = true at hread
    obtain ⟨segment, hsegment, hlength⟩ := (Option.any_eq_true _ _).mp hread
    obtain ⟨only, honly⟩ := List.length_eq_one_iff.mp (beq_iff_eq.mp hlength)
    obtain ⟨hparts, hkind, hnumerals⟩ := (unreadable_iff_not_line text).2 line hline
    obtain ⟨e, he⟩ := herror
    rw [hparts] at he
    refine ⟨line, segment, only, rfl, hsegment, honly, hparts, ⟨e, he, hkind e he⟩, ?_⟩
    exact hnumerals segment hsegment only (honly ▸ List.mem_cons_self)

end Rule

end PluralRules
