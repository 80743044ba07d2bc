import PluralRules.Expr.Key
import PluralRules.Proofs.Numeral
import PluralRules.Proofs.Result
import PluralRules.Proofs.Safety

/-!
# Structural keys identify trees

The structural key of a tree is the text of its nodes in parentheses, operator first. It drops the
parentheses of the rule text and nothing else: two trees have the same key exactly if they are the
same without those (`Expr.key_eq_iff`), as long as their names do not look like a part of a key.

* **Unique reading** (`Expr.key_append_inj`) — a text begins with the key of at most one tree
  without parentheses. Every key is an opening parenthesis, the word of its root (`Head.word`), and
  its parts.
* **Evaluation** (`Expr.evalBool_stripped`) — the parentheses that are dropped mean nothing, except
  around an element of a list, which is then no number and no range.
-/

namespace PluralRules

namespace Expr

/-! ### Trees without parentheses -/

mutual

/-- The tree without any of the parentheses in it. -/
def stripped : Expr → Expr
  | unary op arg => unary op arg.stripped
  | binary op left right => binary op left.stripped right.stripped
  | group items => group (itemsStripped items)
  | paren inner => inner.stripped
  | e => e

def itemsStripped : List Expr → List Expr
  | [] => []
  | item :: more => item.stripped :: itemsStripped more

end

mutual

/-- Parentheses leave no trace in the key of a tree. -/
theorem key_stripped : ∀ e : Expr, e.stripped.key = e.key
  | literal _ | operand _ | truth _ | range _ _ | ellipsis => rfl
  | unary op arg => congrArg ('(' :: op.symbol.toList ++ ' ' :: · ++ [')']) (key_stripped arg)
  | binary op left right =>
    congrArg₂ ('(' :: op.symbol.toList ++ ' ' :: · ++ ' ' :: · ++ [')']) (key_stripped left)
      (key_stripped right)
  | group items => congrArg ("(group".toList ++ · ++ [')']) (itemKeys_stripped items)
  | paren inner => key_stripped inner

theorem itemKeys_stripped : ∀ items : List Expr, itemKeys (itemsStripped items) = itemKeys items
  | [] => rfl
  | item :: more => congrArg₂ (' ' :: · ++ ·) (key_stripped item) (itemKeys_stripped more)

end

end Expr

/-! ### The words of keys -/

/-- What the root of a tree is, apart from its parts. -/
inductive Head where
  | literal | operand | truth (value : Bool) | unary (op : UnaryOp) | binary (op : BinaryOp)
  | range | group | ellipsis
  deriving DecidableEq

namespace Head

def all : List Head :=
  [literal, operand, truth true, truth false, range, group, ellipsis] ++ UnaryOp.all.map unary ++
    BinaryOp.all.map binary

/-- The word with which the key of a tree begins. -/
def word : Head → String
  | literal => "const"
  | operand => "operand"
  | truth value => if value then "true" else "false"
  | unary op => op.symbol
  | binary op => op.symbol
  | range => "range"
  | group => "group"
  | ellipsis => "inf"

theorem mem_all (head : Head) : head ∈ all := by
  cases head with
  | truth value => cases value <;> decide
  | unary op => rcases op with _ | _ | _ | _ <;> decide
  | binary op => rcases op with _ | (_ | _ | _) | (_ | _ | _ | _ | _ | _) <;> decide
  | _ => decide

/-- Different heads have different words. -/
theorem word_injective {a b : Head} (h : a.word = b.word) : a = b := by
  have hall : ∀ a ∈ all, ∀ b ∈ all, a.word = b.word → a = b := by decide
  exact hall a a.mem_all b b.mem_all h

end Head

/-- The characters that can stand within a word of a key. -/
def isKeyChar (c : Char) : Bool := c != ' ' && c != '(' && c != ')'

theorem Head.isKeyChar_of_mem_word (head : Head) : ∀ c ∈ head.word.toList, isKeyChar c = true := by
  have hall : ∀ head ∈ all, head.word.toList.all isKeyChar = true := by decide
  exact List.all_eq_true.mp (hall head head.mem_all)

/-- A number is a single word of a key. -/
theorem Quantity.isKeyChar_of_mem_chars (q : Quantity) : ∀ c ∈ q.chars, isKeyChar c = true := by
  intro c hc
  rcases q.isNumeralChar_of_mem_chars c hc with hdigit | rfl | rfl | rfl
  · have hne : ∀ {d : Char}, d.isDigit = false → c ≠ d := by
      rintro d hd rfl
      exact absurd hdigit (by rw [hd]; decide)
    simp [isKeyChar, hne (d := ' ') rfl, hne (d := '(') rfl, hne (d := ')') rfl]
  all_goals rfl

/-- A word ends where a character follows that cannot stand within it. -/
theorem append_inj_of_isKeyChar {word word' rest rest' : List Char}
    (hword : ∀ c ∈ word, isKeyChar c = true) (hword' : ∀ c ∈ word', isKeyChar c = true)
    (hrest : rest.head?.any isKeyChar = false) (hrest' : rest'.head?.any isKeyChar = false)
    (h : word ++ rest = word' ++ rest') : word = word' ∧ rest = rest' := by
  constructor
  · rw [← takeWhile_run hword hrest, h, takeWhile_run hword' hrest']
  · rw [← dropWhile_run hword hrest, h, dropWhile_run hword' hrest']

/-- A quantity that a text spells is known by its text. -/
theorem Quantity.eq_of_chars {a b : Quantity} (ha : a.IsSpelled) (hb : b.IsSpelled)
    (h : a.chars = b.chars) : a = b := by
  have hread := ofChars_chars ha.2
  rw [h, ofChars_chars hb.2, respelled_eq_self ha.1, respelled_eq_self hb.1] at hread
  exact (Except.ok.inj hread).symm

namespace Expr

/-! ### Unique reading -/

mutual

/-- The tree has no parentheses, its names look like no part of a key, and texts spell its
numbers. -/
def IsLegible : Expr → Prop
  | literal value => value.IsSpelled
  | operand name => ∀ c ∈ name.toList, isKeyChar c = true
  | truth _ => True
  | unary _ arg => arg.IsLegible
  | binary _ left right => left.IsLegible ∧ right.IsLegible
  | range least greatest => least.IsSpelled ∧ greatest.IsSpelled
  | group items => ItemsLegible items
  | paren _ => False
  | ellipsis => True

def ItemsLegible : List Expr → Prop
  | [] => True
  | item :: more => item.IsLegible ∧ ItemsLegible more

end

/-- The head of a tree. Parentheses are no node of a key. -/
def head : Expr → Head
  | literal _ => .literal
  | operand _ => .operand
  | truth value => .truth value
  | unary op _ => .unary op
  | binary op _ _ => .binary op
  | range _ _ => .range
  | group _ => .group
  | paren inner => inner.head
  | ellipsis => .ellipsis

/-- What stands behind the word of the root in the key of a tree. -/
def keyParts : Expr → List Char
  | literal value => ' ' :: value.chars
  | operand name => ' ' :: name.toList
  | truth _ => []
  | unary _ arg => ' ' :: arg.key
  | binary _ left right => ' ' :: left.key ++ ' ' :: right.key
  | range least greatest => ' ' :: least.chars ++ ' ' :: greatest.chars
  | group items => itemKeys items
  | paren inner => inner.keyParts
  | ellipsis => []

/-- A key begins with the word of the head, and its parts stand behind that word. -/
theorem key_eq : ∀ e : Expr, e.key = '(' :: (e.head.word.toList ++ (e.keyParts ++ [')']))
  | literal value => by
    have hword : "(const ".toList = '(' :: ("const".toList ++ [' ']) := by decide
    show "(const ".toList ++ value.chars ++ [')'] =
        '(' :: ("const".toList ++ (' ' :: value.chars ++ [')']))
    simp only [hword, List.cons_append, List.append_assoc, List.nil_append]
  | operand name => by
    have hword : "(operand ".toList = '(' :: ("operand".toList ++ [' ']) := by decide
    show "(operand ".toList ++ name.toList ++ [')'] =
      '(' :: ("operand".toList ++ (' ' :: name.toList ++ [')']))
    simp only [hword, List.cons_append, List.append_assoc, List.nil_append]
  | truth value => by cases value <;> rfl
  | unary op arg => by
    show '(' :: op.symbol.toList ++ ' ' :: arg.key ++ [')'] =
      '(' :: (op.symbol.toList ++ (' ' :: arg.key ++ [')']))
    rw [List.cons_append, List.cons_append, List.append_assoc]
  | binary op left right => by
    show '(' :: op.symbol.toList ++ ' ' :: left.key ++ ' ' :: right.key ++ [')'] =
      '(' :: (op.symbol.toList ++ (' ' :: left.key ++ ' ' :: right.key ++ [')']))
    simp only [List.cons_append, List.append_assoc]
  | range least greatest => by
    have hword : "(range ".toList = '(' :: ("range".toList ++ [' ']) := by decide
    show "(range ".toList ++ least.chars ++ ' ' :: greatest.chars ++ [')'] =
      '(' :: ("range".toList ++ (' ' :: least.chars ++ ' ' :: greatest.chars ++ [')']))
    simp only [hword, List.cons_append, List.append_assoc, List.nil_append]
  | group items => by
    have hword : "(group".toList = '(' :: "group".toList := by decide
    show "(group".toList ++ itemKeys items ++ [')'] =
      '(' :: ("group".toList ++ (itemKeys items ++ [')']))
    simp only [hword, List.cons_append, List.append_assoc]
  | paren inner => key_eq inner
  | ellipsis => rfl

/-- What stands behind the word of the head does not go on with the word. -/
theorem head?_keyParts :
    ∀ (e : Expr) (s : List Char), (e.keyParts ++ ')' :: s).head?.any isKeyChar = false
  | literal _, _ | operand _, _ | truth _, _ | unary _ _, _ | binary _ _ _, _ | range _ _, _
  | ellipsis, _ => rfl
  | group items, _ => by cases items <;> rfl
  | paren inner, s => head?_keyParts inner s

/-- Texts that begin with keys and are equal have equal heads and equal parts. -/
theorem keyParts_of_key {a b : Expr} {s s' : List Char} (h : a.key ++ s = b.key ++ s') :
    a.head = b.head ∧ a.keyParts ++ ')' :: s = b.keyParts ++ ')' :: s' := by
  simp only [key_eq, List.cons_append, List.append_assoc, List.cons.injEq, true_and,
    List.nil_append] at h
  obtain ⟨hword, hparts⟩ := append_inj_of_isKeyChar a.head.isKeyChar_of_mem_word
    b.head.isKeyChar_of_mem_word (head?_keyParts a s) (head?_keyParts b s') h
  exact ⟨Head.word_injective (String.toList_injective hword), hparts⟩

mutual

/-- A text begins with the key of at most one legible tree. -/
theorem key_append_inj : ∀ (a b : Expr) {s s' : List Char}, a.IsLegible → b.IsLegible →
    a.key ++ s = b.key ++ s' → a = b ∧ s = s'
  | literal p, b, s, s', ha, hb, h => by
    -- the heads agree, so the trees differ at most in what stands behind the head
    obtain ⟨hhead, hparts⟩ := keyParts_of_key h
    cases b with
    | literal q =>
      obtain ⟨hchars, hrest⟩ := append_inj_of_isKeyChar p.isKeyChar_of_mem_chars
        q.isKeyChar_of_mem_chars rfl rfl (List.cons.inj hparts).2
      exact ⟨congrArg literal (Quantity.eq_of_chars ha hb hchars), (List.cons.inj hrest).2⟩
    | paren _ => exact hb.elim
    | _ => cases hhead
  | operand name, b, s, s', ha, hb, h => by
    obtain ⟨hhead, hparts⟩ := keyParts_of_key h
    cases b with
    | operand name' =>
      obtain ⟨hname, hrest⟩ := append_inj_of_isKeyChar ha hb rfl rfl (List.cons.inj hparts).2
      exact ⟨congrArg operand (String.toList_injective hname), (List.cons.inj hrest).2⟩
    | paren _ => exact hb.elim
    | _ => cases hhead
  | truth value, b, s, s', _, hb, h => by
    obtain ⟨hhead, hparts⟩ := keyParts_of_key h
    cases b with
    | truth value' => cases hhead; exact ⟨rfl, (List.cons.inj hparts).2⟩
    | paren _ => exact hb.elim
    | _ => cases hhead
  | unary op arg, b, s, s', ha, hb, h => by
    obtain ⟨hhead, hparts⟩ := keyParts_of_key h
    cases b with
    | unary op' arg' =>
      -- the parts first: once they are equal, `hhead` only speaks of the operators
      obtain ⟨rfl, hrest⟩ := key_append_inj arg arg' ha hb (List.cons.inj hparts).2
      cases hhead
      exact ⟨rfl, (List.cons.inj hrest).2⟩
    | paren _ => exact hb.elim
    | _ => cases hhead
  | binary op left right, b, s, s', ha, hb, h => by
    obtain ⟨hhead, hparts⟩ := keyParts_of_key h
    cases b with
    | binary op' left' right' =>
      simp only [keyParts, List.cons_append, List.append_assoc, List.cons.injEq, true_and] at hparts
      obtain ⟨rfl, hright⟩ := key_append_inj left left' ha.1 hb.1 hparts
      obtain ⟨rfl, hrest⟩ := key_append_inj right right' ha.2 hb.2 (List.cons.inj hright).2
      cases hhead
      exact ⟨rfl, (List.cons.inj hrest).2⟩
    | paren _ => exact hb.elim
    | _ => cases hhead
  | range p q, b, s, s', ha, hb, h => by
    obtain ⟨hhead, hparts⟩ := keyParts_of_key h
    cases b with
    | range p' q' =>
      simp only [keyParts, List.cons_append, List.append_assoc, List.cons.injEq, true_and] at hparts
      obtain ⟨hleast, hgreatest⟩ := append_inj_of_isKeyChar p.isKeyChar_of_mem_chars
        p'.isKeyChar_of_mem_chars rfl rfl hparts
      obtain ⟨hgreatest, hrest⟩ := append_inj_of_isKeyChar q.isKeyChar_of_mem_chars
        q'.isKeyChar_of_mem_chars rfl rfl (List.cons.inj hgreatest).2
      refine ⟨?_, (List.cons.inj hrest).2⟩
      rw [Quantity.eq_of_chars ha.1 hb.1 hleast, Quantity.eq_of_chars ha.2 hb.2 hgreatest]
    | paren _ => exact hb.elim
    | _ => cases hhead
  | group items, b, s, s', ha, hb, h => by
    obtain ⟨hhead, hparts⟩ := keyParts_of_key h
    cases b with
    | group items' =>
      obtain ⟨rfl, rfl⟩ := itemKeys_append_inj items items' ha hb hparts
      exact ⟨rfl, rfl⟩
    | paren _ => exact hb.elim
    | _ => cases hhead
  | paren _, _, _, _, ha, _, _ => ha.elim
  | ellipsis, b, s, s', _, hb, h => by
    obtain ⟨hhead, hparts⟩ := keyParts_of_key h
    cases b with
    | ellipsis => exact ⟨rfl, (List.cons.inj hparts).2⟩
    | paren _ => exact hb.elim
    | _ => cases hhead

/-- The keys of elements end at the parenthesis that closes their list. -/
theorem itemKeys_append_inj : ∀ (as bs : List Expr) {s s' : List Char}, ItemsLegible as →
    ItemsLegible bs → itemKeys as ++ ')' :: s = itemKeys bs ++ ')' :: s' → as = bs ∧ s = s'
  | [], [], _, _, _, _, h => ⟨rfl, (List.cons.inj h).2⟩
  | [], _ :: _, _, _, _, _, h => absurd (List.cons.inj h).1 (by decide)
  | _ :: _, [], _, _, _, _, h => absurd (List.cons.inj h).1 (by decide)
  | a :: as, b :: bs, s, s', ha, hb, h => by
    simp only [itemKeys, List.cons_append, List.append_assoc, List.cons.injEq, true_and] at h
    obtain ⟨rfl, hmore⟩ := key_append_inj a b ha.1 hb.1 h
    obtain ⟨rfl, rfl⟩ := itemKeys_append_inj as bs ha.2 hb.2 hmore
    exact ⟨rfl, rfl⟩

end

/-! ### Trees that keys identify -/

/-- A name in a key is one word, and a number in it is one that a text spells. -/
def IsReadable : Expr → Prop
  | literal value => ∃ text, Quantity.ofString text = .ok value
  | operand name => ∀ c ∈ name.toList, c ≠ ' ' ∧ c ≠ '(' ∧ c ≠ ')'
  | range least greatest =>
    (∃ text, Quantity.ofString text = .ok least) ∧ ∃ text, Quantity.ofString text = .ok greatest
  | _ => True

/-- What a text spells is spelled. -/
theorem isSpelled_of_ofString {q : Quantity} (h : ∃ text, Quantity.ofString text = .ok q) :
    q.IsSpelled := by
  obtain ⟨text, htext⟩ := h
  exact Quantity.isSpelled_of_ofChars htext

mutual

/-- A tree of readable nodes is legible as soon as its parentheses are dropped. -/
theorem isLegible_stripped : ∀ e : Expr, (∀ node ∈ e.nodes, node.IsReadable) → e.stripped.IsLegible
  | literal value, h => isSpelled_of_ofString (h (literal value) (mem_nodes_self _))
  | operand name, h => by
    intro c hc
    obtain ⟨hblank, hopen, hclose⟩ := h (operand name) (mem_nodes_self _) c hc
    simp [isKeyChar, hblank, hopen, hclose]
  | truth _, _ | ellipsis, _ => trivial
  | unary _ arg, h => isLegible_stripped arg (List.forall_mem_cons.mp h).2
  | binary _ left right, h => by
    obtain ⟨hl, hr⟩ := List.forall_mem_append.mp (List.forall_mem_cons.mp h).2
    exact ⟨isLegible_stripped left hl, isLegible_stripped right hr⟩
  | range least greatest, h => by
    obtain ⟨hleast, hgreatest⟩ := h (range least greatest) (mem_nodes_self _)
    exact ⟨isSpelled_of_ofString hleast, isSpelled_of_ofString hgreatest⟩
  | group items, h => itemsLegible_stripped items (List.forall_mem_cons.mp h).2
  | paren inner, h => isLegible_stripped inner (List.forall_mem_cons.mp h).2

/-- Without their parentheses, the elements of a list of readable trees are legible. -/
theorem itemsLegible_stripped : ∀ items : List Expr, (∀ node ∈ itemNodes items, node.IsReadable) →
    ItemsLegible (itemsStripped items)
  | [], _ => trivial
  | item :: more, h => by
    obtain ⟨hitem, hmore⟩ := List.forall_mem_append.mp h
    exact ⟨isLegible_stripped item hitem, itemsLegible_stripped more hmore⟩

end

/-- Two readable trees have the same key exactly if they are the same without their parentheses. -/
theorem key_inj_stripped {a b : Expr} (ha : ∀ node ∈ a.nodes, node.IsReadable)
    (hb : ∀ node ∈ b.nodes, node.IsReadable) : a.key = b.key ↔ a.stripped = b.stripped := by
  constructor <;> intro h
  · have hkey : a.stripped.key ++ [] = b.stripped.key ++ [] := by
      rw [key_stripped, key_stripped, h]
    exact (key_append_inj _ _ (isLegible_stripped a ha) (isLegible_stripped b hb) hkey).1
  · rw [← key_stripped a, ← key_stripped b, h]

/-! ### Evaluation sees no parentheses -/

/-- No element of a list stands in parentheses. -/
def HasBareItems : Expr → Prop
  | group items => ∀ item ∈ items, item.kind ≠ .parenthesis
  | _ => True

section Evaluation

variable {e : Expr} (x : Quantity)

theorem itemsStripped_eq (items : List Expr) : itemsStripped items = items.map stripped := by
  induction items with
  | nil => rfl
  | cons item more ih => exact congrArg (item.stripped :: ·) ih

/-- The elements of a set without parentheses are the elements of the set, without theirs. -/
theorem elements?_stripped : ∀ e : Expr, e.stripped.elements? = e.elements?.map itemsStripped
  | paren inner => elements?_stripped inner
  | group _ | range _ _ | literal _ | operand _ | truth _ | unary _ _ | binary _ _ _ | ellipsis =>
    rfl

/-- The elements of a set in the tree stand in no parentheses. -/
theorem kind_of_elements? : ∀ {e : Expr} {elements : List Expr},
    (∀ node ∈ e.nodes, node.HasBareItems) → e.elements? = some elements →
      ∀ item ∈ elements, item.kind ≠ .parenthesis
  | group items, _, h, rfl => h (group items) (mem_nodes_self _)
  | range _ _, _, _, rfl => by
    intro item hitem
    rw [List.mem_singleton.mp hitem]
    nofun
  | paren _, _, h, he => kind_of_elements? (List.forall_mem_cons.mp h).2 he

/-- Parentheses within an expression do not change its value. -/
theorem evalNumber_stripped : ∀ e : Expr, e.stripped.evalNumber x = e.evalNumber x
  | literal _ | operand _ | truth _ | range _ _ | group _ | ellipsis => rfl
  | binary (.logic _) _ _ | binary (.relation _) _ _ => rfl
  | unary op arg => by rw [stripped, evalNumber, evalNumber, evalNumber_stripped arg]
  | binary .modulo left right => by
    rw [stripped, evalNumber, evalNumber, evalNumber_stripped left, evalNumber_stripped right]
  | paren inner => evalNumber_stripped inner

/-- Parentheses within an element do not change what it contains, if none stand around it. -/
theorem contains_stripped (h : e.kind ≠ .parenthesis) : contains x e.stripped = contains x e := by
  cases e with
  | paren _ => exact absurd rfl h
  | _ => rfl

theorem boundsHold_stripped (comparison : Comparison) (h : e.kind ≠ .parenthesis) :
    boundsHold comparison x e.stripped = boundsHold comparison x e := by
  cases e with
  | paren _ => exact absurd rfl h
  | _ => rfl

/-- Parentheses within a set do not change how a number compares with it, if none stand around an
element. -/
theorem compareWithSet_stripped (comparison : Comparison) {elements : List Expr}
    (h : ∀ item ∈ elements, item.kind ≠ .parenthesis) :
    compareWithSet comparison x (itemsStripped elements) =
      compareWithSet comparison x elements := by
  rw [itemsStripped_eq]
  -- the elements correspond one to one
  have hpointwise : ∀ {p : Expr → Except EvalError Bool},
      (∀ item : Expr, item.kind ≠ .parenthesis → p item.stripped = p item) →
      List.Forall₂ (fun item item' => Matches Eq Eq (p item) (p item')) (elements.map stripped)
        elements := by
    intro p hp
    refine List.forall₂_map_left_iff.mpr (List.forall₂_same.mpr fun item hitem => ?_)
    exact .of_eq (hp item (h item hitem))
  have hbounds := fun comparison : Comparison =>
    (matches_allM (hpointwise fun _ hitem => boundsHold_stripped x comparison hitem)).eq
  cases comparison with
  | eq => exact (matches_anyM (hpointwise fun _ hitem => contains_stripped x hitem)).eq
  | ne =>
    exact (matches_allM (hpointwise fun _ hitem =>
      congrArg (Except.map (!·)) (contains_stripped x hitem))).eq
  | lt => exact hbounds .lt
  | le => exact hbounds .le
  | gt => exact hbounds .gt
  | ge => exact hbounds .ge

/-- Parentheses within the sides of a comparison do not change what it says, if none stand around an
element of a list. -/
theorem compareSides_stripped (comparison : Comparison) {left right : Expr}
    (hl : ∀ node ∈ left.nodes, node.HasBareItems) (hr : ∀ node ∈ right.nodes, node.HasBareItems) :
    compareSides x comparison left.stripped right.stripped =
      compareSides x comparison left right := by
  rw [compareSides, compareSides, elements?_stripped, elements?_stripped, evalNumber_stripped,
    evalNumber_stripped]
  cases hleft : left.elements? with
  | some elements =>
    have helements := kind_of_elements? hl hleft
    simp only [Option.map_some, compareWithSet_stripped _ _ helements]
  | none =>
    cases hright : right.elements? with
    | some elements =>
      have helements := kind_of_elements? hr hright
      simp only [Option.map_some, Option.map_none, compareWithSet_stripped _ _ helements]
    | none => rfl

/-- Without its parentheses, a tree has the same truth value or error. -/
theorem evalBool_stripped : ∀ e : Expr, (∀ node ∈ e.nodes, node.HasBareItems) →
    e.stripped.evalBool x = e.evalBool x
  | literal _, _ | operand _, _ | truth _, _ | range _ _, _ | group _, _ | ellipsis, _ => rfl
  | unary (.sign _) _, _ | binary .modulo _ _, _ => rfl
  | unary .not arg, h => by
    rw [stripped, evalBool, evalBool, evalBool_stripped arg (List.forall_mem_cons.mp h).2]
  | binary (.logic _) left right, h => by
    obtain ⟨hl, hr⟩ := List.forall_mem_append.mp (List.forall_mem_cons.mp h).2
    rw [stripped, evalBool, evalBool, evalBool_stripped left hl, evalBool_stripped right hr]
  | binary (.relation comparison) _ _, h => by
    obtain ⟨hl, hr⟩ := List.forall_mem_append.mp (List.forall_mem_cons.mp h).2
    exact compareSides_stripped x comparison hl hr
  | paren inner, h => evalBool_stripped inner (List.forall_mem_cons.mp h).2

end Evaluation

/-- The structural key identifies a readable tree up to parentheses, and trees with the same key
behave the same: unless an element of a list stands in parentheses, they have the same truth value
and the same number, or the same error, for every quantity. -/
theorem key_eq_iff {a b : Expr} (ha : ∀ node ∈ a.nodes, node.IsReadable)
    (hb : ∀ node ∈ b.nodes, node.IsReadable) :
    (a.key = b.key ↔ a.stripped = b.stripped) ∧
      ((∀ node ∈ a.nodes, node.HasBareItems) → (∀ node ∈ b.nodes, node.HasBareItems) →
        a.key = b.key →
        ∀ x : Quantity, a.evalBool x = b.evalBool x ∧ a.evalNumber x = b.evalNumber x) := by
  have hkey := key_inj_stripped ha hb
  refine ⟨hkey, fun hbare hbare' h x => ⟨?_, ?_⟩⟩
  · rw [← evalBool_stripped x a hbare, hkey.mp h, evalBool_stripped x b hbare']
  · rw [← evalNumber_stripped x a, hkey.mp h, evalNumber_stripped x b]

/-- A comparison with a list of a range and a compact number, with parentheses around the comparison
and its left side, and without. -/
theorem key_eq_iff_of_parentheses :
    let list : Expr := .group [.range ⟨2, 0, 0⟩ ⟨4, 0, 0⟩, .literal ⟨15, -5, 6⟩]
    let a : Expr := .paren (.binary (.relation .eq) (.paren (.operand "n")) list)
    let b : Expr := .binary (.relation .eq) (.operand "n") list
    a.toString = "((n) = 2..4,1.5c6)" ∧ b.toString = "n = 2..4,1.5c6" ∧
      (a.key = b.key ↔ a.stripped = b.stripped) ∧ a.key = b.key ∧
      ∀ x : Quantity, a.evalBool x = b.evalBool x ∧ a.evalNumber x = b.evalNumber x := by
  intro list a b
  have hlist : ∀ node ∈ list.nodes, node.IsReadable := by
    simp only [list, nodes, itemNodes, List.cons_append, List.nil_append, List.append_nil,
      List.forall_mem_cons]
    exact ⟨trivial, ⟨⟨"2", by decide +kernel⟩, "4", by decide +kernel⟩,
      ⟨"1.5c6", by decide +kernel⟩, nofun⟩
  have hname : (operand "n").IsReadable := List.forall_mem_singleton.mpr (by decide)
  have hb : ∀ node ∈ b.nodes, node.IsReadable := by
    simpa [b, nodes, hname, IsReadable] using hlist
  have ha : ∀ node ∈ a.nodes, node.IsReadable := by
    simpa [a, nodes, hname, IsReadable] using hlist
  have hbare : ∀ node ∈ list.nodes, node.HasBareItems := by
    simp [list, nodes, itemNodes, HasBareItems, kind]
  have hbare_b : ∀ node ∈ b.nodes, node.HasBareItems := by
    simpa [b, nodes, HasBareItems] using hbare
  have hbare_a : ∀ node ∈ a.nodes, node.HasBareItems := by
    simpa [a, nodes, HasBareItems] using hbare
  obtain ⟨hiff, heval⟩ := key_eq_iff ha hb
  have hkey : a.key = b.key := by decide +kernel
  exact ⟨by decide +kernel, by decide +kernel, hiff, hkey, heval hbare_a hbare_b hkey⟩

end Expr

end PluralRules
