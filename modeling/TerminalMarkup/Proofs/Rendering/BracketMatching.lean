import TerminalMarkup.Proofs.Rendering.OpenRules
import Mathlib.Data.List.Infix
import Mathlib.Data.List.Sort

/-!
Contract: rendering matches opening and closing marks like brackets.

`writtenAt` says what stands in the rendered text for the token at one position,
without a stack: a closing mark closes the rule of the opening mark that it
matches (`Matches`), and opens again the rules that stand open around it
(`StandsOpen`). `openPositions` keeps the stack of the renderer by positions.
Its invariant is that the tokens behind an open position are balanced but for
the opening marks above it on the stack (`openPositions_of_depth?`), so that a
closing mark matches the top of the stack and nothing else.
-/

set_option autoImplicit false

namespace TerminalMarkup.RuleSet

/-! ## Matching marks -/

/-- The rule that a token opens, if it is an opening mark of the set. -/
def opened? (rules : RuleSet) : Token → Option CompiledRule
  | .opening name => rules.get? name
  | _ => none

/-- The rule that the token at a position opens. -/
def openedAt? (rules : RuleSet) (tokens : List Token) (position : Nat) : Option CompiledRule :=
  tokens[position]?.bind rules.opened?

/-- The number of opening marks of the set. -/
def openings (rules : RuleSet) (tokens : List Token) : Nat :=
  tokens.countP fun token => (rules.opened? token).isSome

/-- The number of closing marks. -/
def closings (tokens : List Token) : Nat :=
  tokens.count .closing

/-- As many closing marks as opening marks, and no closing mark without an
opening mark before it. -/
def Balanced (rules : RuleSet) (tokens : List Token) : Prop :=
  closings tokens = rules.openings tokens ∧
    ∀ front ∈ tokens.inits, closings front ≤ rules.openings front

/-- The tokens strictly between two positions. -/
def between (tokens : List Token) (first last : Nat) : List Token :=
  (tokens.take last).drop (first + 1)

/-- Whether a closing mark matches an opening mark of the set before it: the
tokens between them are balanced, and no reset mark is among them. -/
def Matches (rules : RuleSet) (tokens : List Token) (opener closer : Nat) : Prop :=
  tokens[closer]? = some .closing ∧ opener < closer ∧
    (rules.openedAt? tokens opener).isSome ∧
    .reset ∉ between tokens opener closer ∧
    rules.Balanced (between tokens opener closer)

instance (rules : RuleSet) (tokens : List Token) : Decidable (rules.Balanced tokens) := by
  unfold Balanced
  infer_instance

instance (rules : RuleSet) (tokens : List Token) (opener closer : Nat) :
    Decidable (rules.Matches tokens opener closer) := by
  unfold Matches
  infer_instance

/-- Whether the opening mark of the set at a position is still open before
another position: no reset mark is between them, and no closing mark before the
other position matches it. -/
def StandsOpen (rules : RuleSet) (tokens : List Token) (before opener : Nat) : Prop :=
  (rules.openedAt? tokens opener).isSome ∧
    .reset ∉ between tokens opener before ∧
    ∀ closer < before, ¬ rules.Matches tokens opener closer

instance (rules : RuleSet) (tokens : List Token) (before opener : Nat) :
    Decidable (rules.StandsOpen tokens before opener) := by
  unfold StandsOpen
  infer_instance

/-- The rules of the opening marks up to a position that stand open before
another one, in their order. -/
def standing (rules : RuleSet) (tokens : List Token) (before limit : Nat) :
    List CompiledRule :=
  ((List.range limit).filter (rules.StandsOpen tokens before)).filterMap
    (rules.openedAt? tokens)

/-- What is written for the token at a position: a text itself, the inside of
the rule that is opened, nothing for an unknown name; for a closing mark that
matches an opening mark, the after part of its rule and the inside of the rules
that stand open before that opening mark; nothing for other closing marks, and
the after part of the reset rule for a reset mark. -/
def writtenAt (rules : RuleSet) (tokens : List Token) (position : Nat) : Text :=
  match tokens[position]? with
  | none => []
  | some (.text literal) => literal
  | some (.opening name) => ((rules.get? name).map (·.sequence .inside)).getD []
  | some .closing =>
    match (List.range position).find? (rules.Matches tokens · position) with
    | none => []
    | some opener =>
      ((rules.openedAt? tokens opener).map (·.sequence .after)).getD [] ++
        (rules.standing tokens position opener).flatMap (·.sequence .inside)
  | some .reset => rules.resetRule.sequence .after

/-! ## Depth -/

section

variable {rules : RuleSet} {tokens : List Token}

@[simp]
theorem openings_nil : rules.openings [] = 0 := rfl

@[simp]
theorem openings_cons (token : Token) (rest : List Token) :
    rules.openings (token :: rest) =
      rules.openings rest + if (rules.opened? token).isSome then 1 else 0 := by
  exact List.countP_cons

@[simp]
theorem closings_nil : closings [] = 0 := rfl

@[simp]
theorem closings_cons (token : Token) (rest : List Token) :
    closings (token :: rest) = closings rest + if token = .closing then 1 else 0 := by
  simp [closings, List.count_cons]

/-- The number of open rules after a token, as long as no reset mark ends them
all and no closing mark ends one that was open at the start. -/
def depthStep? (rules : RuleSet) (depth : Nat) : Token → Option Nat
  | .text _ => some depth
  | .opening name => some (if (rules.get? name).isSome then depth + 1 else depth)
  | .closing => match depth with
    | 0 => none
    | outer + 1 => some outer
  | .reset => none

/-- The number of open rules after some tokens, from the number before them. -/
def depth? (rules : RuleSet) (start : Nat) (tokens : List Token) : Option Nat :=
  tokens.foldlM rules.depthStep? start

theorem depth?_cons (start : Nat) (token : Token) (rest : List Token) :
    rules.depth? start (token :: rest) =
      (rules.depthStep? start token).bind (rules.depth? · rest) := by
  exact List.foldlM_cons

theorem depth?_singleton (start : Nat) (token : Token) :
    rules.depth? start [token] = rules.depthStep? start token := by
  rw [depth?_cons]
  exact Option.bind_fun_some _

theorem depth?_append (start : Nat) (front back : List Token) :
    rules.depth? start (front ++ back) =
      (rules.depth? start front).bind (rules.depth? · back) := by
  exact List.foldlM_append

/-- The depth is there as long as no reset mark occurs and no prefix has more
closing marks than there are rules to close. -/
theorem depth?_eq_some_iff {start depth : Nat} :
    rules.depth? start tokens = some depth ↔
      .reset ∉ tokens ∧
        (∀ front ∈ tokens.inits, closings front ≤ start + rules.openings front) ∧
        closings tokens + depth = start + rules.openings tokens := by
  induction tokens generalizing start with
  | nil => simp [depth?, eq_comm]
  | cons token rest inductionHypothesis =>
      rw [depth?_cons]
      cases token with
      | text literal => simp [depthStep?, inductionHypothesis, opened?]
      | opening name =>
          cases found : rules.get? name with
          | none => simp [depthStep?, inductionHypothesis, opened?, found]
          | some rule =>
              simp [depthStep?, inductionHypothesis, opened?, found, Nat.add_assoc,
                Nat.add_comm 1]
      | closing =>
          cases start with
          | zero =>
              -- The closing mark alone is a prefix with too many closing marks.
              simp only [depthStep?, Option.bind_none, reduceCtorEq, false_iff]
              rintro ⟨_, fronts, _⟩
              have alone := fronts [.closing] ((List.mem_inits _ _).mpr ⟨rest, rfl⟩)
              simp [opened?] at alone
          | succ outer =>
              simp [depthStep?, inductionHypothesis, opened?, Nat.add_right_comm _ 1]
      | reset => simp [depthStep?]

end

/-! ## The stack by positions -/

section

variable {rules : RuleSet} {tokens : List Token}

theorem between_self (position : Nat) : between tokens position (position + 1) = [] := by
  simp [between]

theorem between_succ {first last : Nat} (ordered : first < last) :
    between tokens first (last + 1) =
      between tokens first last ++ tokens[last]?.toList := by
  unfold between
  rw [List.take_add_one, List.drop_append]
  cases here : tokens[last]? with
  | none => simp
  | some token =>
      have inside := (List.getElem?_eq_some_iff.mp here).1
      have reached : first + 1 - (tokens.take last).length = 0 := by
        rw [List.length_take]
        omega
      rw [reached]
      rfl

/-- The positions of the opening marks that are open before a position,
innermost first. -/
def openPositions (rules : RuleSet) (tokens : List Token) : Nat → List Nat
  | 0 => []
  | position + 1 =>
    match tokens[position]? with
    | none => openPositions rules tokens position
    | some (.text _) => openPositions rules tokens position
    | some (.opening name) =>
      if (rules.get? name).isSome then position :: openPositions rules tokens position
      else openPositions rules tokens position
    | some .closing => (openPositions rules tokens position).tail
    | some .reset => []

/-- A token opens a rule at its position, or it only takes positions away. -/
theorem openPositions_succ_cases (rules : RuleSet) (tokens : List Token) (position : Nat) :
    ((rules.openedAt? tokens position).isSome ∧ rules.openPositions tokens (position + 1) =
        position :: rules.openPositions tokens position) ∨
      (rules.openPositions tokens (position + 1)).Sublist
        (rules.openPositions tokens position) := by
  cases here : tokens[position]? with
  | none => simp [openPositions, here]
  | some token =>
      cases token with
      | text literal => simp [openPositions, here]
      | opening name =>
          cases found : rules.get? name with
          | none => simp [openPositions, here, found]
          | some rule => simp [openPositions, openedAt?, opened?, here, found]
      | closing => simp [openPositions, here, List.tail_sublist]
      | reset => simp [openPositions, here]

/-- The open positions are behind each other, and a rule opens at each. -/
theorem openPositions_sound (rules : RuleSet) (tokens : List Token) (position : Nat) :
    (∀ opener ∈ rules.openPositions tokens position,
        opener < position ∧ (rules.openedAt? tokens opener).isSome) ∧
      (rules.openPositions tokens position).Pairwise (· > ·) := by
  induction position with
  | zero => simp [openPositions]
  | succ position inductionHypothesis =>
      obtain ⟨sound, sorted⟩ := inductionHypothesis
      rcases openPositions_succ_cases rules tokens position with ⟨opens, pushed⟩ | taken
      · rw [pushed]
        refine ⟨?_, List.pairwise_cons.mpr ⟨fun opener member => (sound opener member).1, sorted⟩⟩
        intro opener member
        rcases List.mem_cons.mp member with rfl | member
        · exact ⟨Nat.lt_succ_self _, opens⟩
        · exact ⟨Nat.lt_succ_of_lt (sound opener member).1, (sound opener member).2⟩
      · refine ⟨?_, sorted.sublist taken⟩
        intro opener member
        have known := sound opener (taken.subset member)
        exact ⟨Nat.lt_succ_of_lt known.1, known.2⟩

theorem lt_of_mem_openPositions {opener position : Nat}
    (member : opener ∈ rules.openPositions tokens position) : opener < position :=
  ((openPositions_sound rules tokens position).1 opener member).1

/-- Below the top of the stack are earlier positions only. -/
theorem lt_of_mem_below {top position : Nat} {outer : List Nat}
    (stack : rules.openPositions tokens position = top :: outer) :
    ∀ opener ∈ outer, opener < top := by
  have sorted := (openPositions_sound rules tokens position).2
  rw [stack] at sorted
  exact (List.pairwise_cons.mp sorted).1

/-- The top of the stack stands there once. -/
theorem top_not_mem_below {top position : Nat} {outer : List Nat}
    (stack : rules.openPositions tokens position = top :: outer) : top ∉ outer := by
  intro member
  exact Nat.lt_irrefl _ (lt_of_mem_below stack top member)

/-- Nothing is above the top of the stack. -/
theorem eq_nil_of_above_top {top position : Nat} {inner outer rest : List Nat}
    (stack : rules.openPositions tokens position = top :: outer)
    (split : rules.openPositions tokens position = inner ++ top :: rest) : inner = [] := by
  cases inner with
  | nil => rfl
  | cons first others =>
      rw [stack, List.cons_append] at split
      have twice : top ∈ outer := by
        rw [(List.cons.inj split).2]
        simp
      exact absurd twice (top_not_mem_below stack)

theorem openPositions_of_opens {position : Nat}
    (opens : (rules.openedAt? tokens position).isSome) :
    rules.openPositions tokens (position + 1) =
      position :: rules.openPositions tokens position := by
  cases here : tokens[position]? with
  | none => simp [openedAt?, here] at opens
  | some token =>
      cases token with
      | opening name =>
          have known : (rules.get? name).isSome := by simpa [openedAt?, opened?, here] using opens
          simp [openPositions, here, known]
      | text literal => simp [openedAt?, opened?, here] at opens
      | closing => simp [openedAt?, opened?, here] at opens
      | reset => simp [openedAt?, opened?, here] at opens

/-- One token moves the positions above an opening mark on the stack as it moves
the depth. Where there is no depth any more, the opening mark is gone. -/
theorem openPositions_succ_of_split {opener position : Nat} {inner outer : List Nat}
    {token : Token} (here : tokens[position]? = some token)
    (split : rules.openPositions tokens position = inner ++ opener :: outer) :
    match rules.depthStep? inner.length token with
    | some depth => ∃ above, above.length = depth ∧
        rules.openPositions tokens (position + 1) = above ++ opener :: outer
    | none => opener ∉ rules.openPositions tokens (position + 1) := by
  cases token with
  | text literal => exact ⟨inner, rfl, by simp [openPositions, here, split]⟩
  | opening name =>
      cases found : rules.get? name with
      | none =>
          simp only [depthStep?, found]
          exact ⟨inner, rfl, by simp [openPositions, here, found, split]⟩
      | some rule =>
          simp only [depthStep?, found]
          exact ⟨position :: inner, rfl, by simp [openPositions, here, found, split]⟩
  | closing =>
      cases inner with
      | nil =>
          have closed : rules.openPositions tokens (position + 1) = outer := by
            simp [openPositions, here, split]
          rw [closed]
          exact top_not_mem_below split
      | cons top rest => exact ⟨rest, rfl, by simp [openPositions, here, split]⟩
  | reset =>
      have cleared : rules.openPositions tokens (position + 1) = [] := by
        simp [openPositions, here]
      rw [cleared]
      exact List.not_mem_nil

/-- The depth of the tokens behind an opening mark says how many positions are
above it on the stack. Where there is no depth, it is not on the stack. -/
theorem openPositions_of_depth? {opener position : Nat}
    (opens : (rules.openedAt? tokens opener).isSome) (behind : opener < position) :
    match rules.depth? 0 (between tokens opener position) with
    | some depth => ∃ inner, inner.length = depth ∧
        rules.openPositions tokens position =
          inner ++ opener :: rules.openPositions tokens opener
    | none => opener ∉ rules.openPositions tokens position := by
  -- From the opening mark on; the split of the stack at it is carried along.
  induction position, behind using Nat.le_induction with
  | base =>
      rw [between_self]
      exact ⟨[], rfl, openPositions_of_opens opens⟩
  | succ position behind inductionHypothesis =>
      rw [between_succ behind, depth?_append]
      cases reached : rules.depth? 0 (between tokens opener position) with
      | none =>
          rw [reached] at inductionHypothesis
          show opener ∉ _
          intro member
          rcases openPositions_succ_cases rules tokens position with ⟨_, pushed⟩ | taken
          · rw [pushed] at member
            rcases List.mem_cons.mp member with rfl | member
            · exact Nat.lt_irrefl _ behind
            · exact inductionHypothesis member
          · exact inductionHypothesis (taken.subset member)
      | some depth =>
          rw [reached] at inductionHypothesis
          obtain ⟨inner, rfl, split⟩ := inductionHypothesis
          rw [Option.bind_some]
          cases here : tokens[position]? with
          | none => exact ⟨inner, rfl, by simp [openPositions, here, split]⟩
          | some token =>
              rw [Option.toList_some, depth?_singleton]
              exact openPositions_succ_of_split here split

/-! ## Matching against the stack -/

/-- A closing mark matches the top of the stack, and nothing else. -/
theorem matches_iff {opener closer : Nat} :
    rules.Matches tokens opener closer ↔
      tokens[closer]? = some .closing ∧
        ∃ outer, rules.openPositions tokens closer = opener :: outer := by
  constructor
  · rintro ⟨closing, before, opens, unreset, equal, fronts⟩
    have level : rules.depth? 0 (between tokens opener closer) = some 0 := by
      rw [depth?_eq_some_iff]
      refine ⟨unreset, ?_, ?_⟩
      · intro front member
        rw [Nat.zero_add]
        exact fronts front member
      · rw [equal, Nat.zero_add, Nat.add_zero]
    have stack := openPositions_of_depth? opens before
    rw [level] at stack
    obtain ⟨inner, empty, split⟩ := stack
    rw [List.length_eq_zero_iff.mp empty] at split
    exact ⟨closing, _, split⟩
  · rintro ⟨closing, outer, split⟩
    have member : opener ∈ rules.openPositions tokens closer := by
      rw [split]
      exact List.mem_cons_self
    obtain ⟨before, opens⟩ := (openPositions_sound rules tokens closer).1 opener member
    have stack := openPositions_of_depth? opens before
    cases reached : rules.depth? 0 (between tokens opener closer) with
    | none =>
        rw [reached] at stack
        exact absurd member stack
    | some depth =>
        rw [reached] at stack
        obtain ⟨inner, length, again⟩ := stack
        obtain rfl : inner = [] := eq_nil_of_above_top split again
        subst length
        obtain ⟨unreset, fronts, equal⟩ := depth?_eq_some_iff.mp reached
        refine ⟨closing, before, opens, unreset, ?_, ?_⟩
        · simpa using equal
        · simpa using fronts

/-- No two opening marks have the same closing mark. -/
theorem Matches.unique {first second closer : Nat} (one : rules.Matches tokens first closer)
    (other : rules.Matches tokens second closer) : first = second := by
  obtain ⟨_, outer, stack⟩ := matches_iff.mp one
  obtain ⟨_, others, again⟩ := matches_iff.mp other
  rw [stack] at again
  exact (List.cons.inj again).1

/-- An opening mark leaves the stack at a reset mark and at the closing mark that
it matches. -/
theorem mem_openPositions_succ_iff {opener position : Nat} (before : opener < position) :
    opener ∈ rules.openPositions tokens (position + 1) ↔
      opener ∈ rules.openPositions tokens position ∧ tokens[position]? ≠ some .reset ∧
        ¬ rules.Matches tokens opener position := by
  rw [matches_iff]
  have other : opener ≠ position := Nat.ne_of_lt before
  cases here : tokens[position]? with
  | none => simp [openPositions, here]
  | some token =>
      cases token with
      | text literal => simp [openPositions, here]
      | opening name =>
          cases found : rules.get? name with
          | none => simp [openPositions, here, found]
          | some rule => simp [openPositions, here, found, other]
      | closing =>
          cases stack : rules.openPositions tokens position with
          | nil => simp [openPositions, here, stack]
          | cons top outer =>
              have closed : rules.openPositions tokens (position + 1) = outer := by
                simp [openPositions, here, stack]
              rw [closed]
              constructor
              · intro member
                refine ⟨List.mem_cons_of_mem top member, by simp, ?_⟩
                rintro ⟨_, others, same⟩
                rw [(List.cons.inj same).1] at stack
                exact top_not_mem_below stack member
              · rintro ⟨member, _, unmatched⟩
                rcases List.mem_cons.mp member with rfl | member
                · exact absurd ⟨rfl, outer, rfl⟩ unmatched
                · exact member
      | reset => simp [openPositions, here]

/-- One more token ends what stands open if it is a reset mark or the closing mark
that matches. -/
theorem standsOpen_succ_iff {opener position : Nat} (before : opener < position) :
    rules.StandsOpen tokens (position + 1) opener ↔
      rules.StandsOpen tokens position opener ∧ tokens[position]? ≠ some .reset ∧
        ¬ rules.Matches tokens opener position := by
  have reset : .reset ∉ between tokens opener (position + 1) ↔
      .reset ∉ between tokens opener position ∧ tokens[position]? ≠ some .reset := by
    rw [between_succ before]
    simp
  rw [StandsOpen, StandsOpen, reset, Nat.forall_lt_succ_right]
  constructor
  · rintro ⟨opens, ⟨unreset, kept⟩, unmatched, last⟩
    exact ⟨⟨opens, unreset, unmatched⟩, kept, last⟩
  · rintro ⟨⟨opens, unreset, unmatched⟩, kept, last⟩
    exact ⟨opens, ⟨unreset, kept⟩, unmatched, last⟩

/-- The stack holds the opening marks that stand open. -/
theorem mem_openPositions_iff {opener position : Nat} :
    opener ∈ rules.openPositions tokens position ↔
      opener < position ∧ rules.StandsOpen tokens position opener := by
  induction position with
  | zero => simp [openPositions]
  | succ position inductionHypothesis =>
      rcases Nat.lt_trichotomy opener position with before | rfl | behind
      · rw [mem_openPositions_succ_iff before, standsOpen_succ_iff before, inductionHypothesis]
        simp [before, Nat.lt_succ_of_lt before]
      · constructor
        · intro member
          refine ⟨Nat.lt_succ_self _, ((openPositions_sound rules tokens _).1 _ member).2, ?_, ?_⟩
          · rw [between_self]
            exact List.not_mem_nil
          · rintro closer early ⟨_, later, _⟩
            omega
        · rintro ⟨_, opens, _⟩
          rw [openPositions_of_opens opens]
          exact List.mem_cons_self
      · constructor
        · intro member
          have := lt_of_mem_openPositions member
          omega
        · rintro ⟨early, _⟩
          omega

/-- A descending list of the numbers below a limit that have a property is the
range of the limit, filtered and backwards. -/
theorem eq_reverse_filter {positions : List Nat} {limit : Nat} {holds : Nat → Prop}
    [DecidablePred holds] (sorted : positions.Pairwise (· > ·))
    (members : ∀ position, position ∈ positions ↔ position < limit ∧ holds position) :
    positions = ((List.range limit).filter holds).reverse := by
  have descending : ((List.range limit).filter holds).reverse.Pairwise (· > ·) := by
    rw [List.pairwise_reverse]
    exact List.pairwise_lt_range.filter _
  refine sorted.eq_of_mem_iff descending ?_
  intro position
  rw [members, List.mem_reverse, List.mem_filter, List.mem_range, decide_eq_true_eq]

/-- Below the top of the stack are the opening marks before it that stand
open. -/
theorem below_eq_reverse {top position : Nat} {outer : List Nat}
    (stack : rules.openPositions tokens position = top :: outer) :
    outer = ((List.range top).filter (rules.StandsOpen tokens position)).reverse := by
  obtain ⟨_, sorted⟩ := openPositions_sound rules tokens position
  rw [stack, List.pairwise_cons] at sorted
  refine eq_reverse_filter sorted.2 ?_
  intro opener
  constructor
  · intro member
    have held : opener ∈ rules.openPositions tokens position := by
      rw [stack]
      exact List.mem_cons_of_mem top member
    exact ⟨sorted.1 opener member, (mem_openPositions_iff.mp held).2⟩
  · rintro ⟨early, stands⟩
    have reached : top < position := lt_of_mem_openPositions (stack ▸ List.mem_cons_self)
    have held := mem_openPositions_iff.mpr ⟨Nat.lt_trans early reached, stands⟩
    rw [stack] at held
    rcases List.mem_cons.mp held with rfl | member
    · exact absurd early (Nat.lt_irrefl _)
    · exact member

/-! ## The rendered text -/

theorem exists_rule_of_top {top position : Nat} {outer : List Nat}
    (stack : rules.openPositions tokens position = top :: outer) :
    ∃ rule, rules.openedAt? tokens top = some rule := by
  have member : top ∈ rules.openPositions tokens position := stack ▸ List.mem_cons_self
  exact Option.isSome_iff_exists.mp ((openPositions_sound rules tokens position).1 top member).2

/-- The renderer's stack is that of the open positions. -/
theorem openAfter_take (rules : RuleSet) (tokens : List Token) (position : Nat) :
    rules.openAfter [] (tokens.take position) =
      (rules.openPositions tokens position).filterMap (rules.openedAt? tokens) := by
  induction position with
  | zero => rfl
  | succ position inductionHypothesis =>
      rw [List.take_add_one, openAfter_append, inductionHypothesis]
      cases here : tokens[position]? with
      | none => simp [openPositions, openAfter, here]
      | some token =>
          cases token with
          | text literal => simp [openPositions, openAfter, step, here]
          | opening name =>
              cases found : rules.get? name with
              | none => simp [openPositions, openAfter, step, here, found]
              | some rule =>
                  simp [openPositions, openAfter, step, openedAt?, opened?, here, found]
          | closing =>
              cases stack : rules.openPositions tokens position with
              | nil => simp [openPositions, openAfter, step, here, stack]
              | cons top outer =>
                  obtain ⟨rule, opens⟩ := exists_rule_of_top stack
                  simp [openPositions, openAfter, step, here, stack, opens]
          | reset => simp [openPositions, openAfter, step, here]

/-- With nothing open, no opening mark matches. -/
theorem find?_matches_of_empty {closer : Nat}
    (stack : rules.openPositions tokens closer = []) :
    (List.range closer).find? (rules.Matches tokens · closer) = none := by
  rw [List.find?_eq_none]
  intro opener _
  rw [decide_eq_true_eq, matches_iff, stack]
  rintro ⟨_, outer, same⟩
  cases same

/-- The opening mark that matches is the one on top of the stack. -/
theorem find?_matches_of_top {top closer : Nat} {outer : List Nat}
    (closing : tokens[closer]? = some .closing)
    (stack : rules.openPositions tokens closer = top :: outer) :
    (List.range closer).find? (rules.Matches tokens · closer) = some top := by
  have matching : rules.Matches tokens top closer := matches_iff.mpr ⟨closing, outer, stack⟩
  cases search : (List.range closer).find? (rules.Matches tokens · closer) with
  | none =>
      rw [List.find?_eq_none] at search
      exact absurd (decide_eq_true matching) (search top (List.mem_range.mpr matching.2.1))
  | some opener =>
      have other : rules.Matches tokens opener closer := by
        simpa using List.find?_some search
      rw [other.unique matching]

/-- The rules below the top of the stack, outermost first, are those that stand
open before its opening mark. -/
theorem reverse_below_eq_standing {top position : Nat} {outer : List Nat}
    (stack : rules.openPositions tokens position = top :: outer) :
    (outer.filterMap (rules.openedAt? tokens)).reverse =
      rules.standing tokens position top := by
  rw [below_eq_reverse stack, List.filterMap_reverse, List.reverse_reverse]
  rfl

/-- Behind the tokens before it, the renderer writes for a token what stands at
its position. -/
theorem step_written {position : Nat} {token : Token}
    (here : tokens[position]? = some token) :
    (rules.step (rules.openAfter [] (tokens.take position)) token).2.flatMap
      (Emission.written .styled) = rules.writtenAt tokens position := by
  cases token with
  | text literal => simp [step, writtenAt, here, Emission.written]
  | opening name =>
      cases found : rules.get? name with
      | none => simp [step, writtenAt, here, found]
      | some rule =>
          simp [step, writtenAt, here, found, Emission.written, CompiledRule.sequence,
            CompiledRule.codes]
  | closing =>
      rw [openAfter_take]
      cases stack : rules.openPositions tokens position with
      | nil => simp [step, writtenAt, here, find?_matches_of_empty stack]
      | cons top outer =>
          obtain ⟨rule, opens⟩ := exists_rule_of_top stack
          have search := find?_matches_of_top here stack
          simp only [step, writtenAt, here, search, opens, List.filterMap_cons]
          rw [reverse_below_eq_standing stack]
          simp [List.flatMap_map, Emission.written, CompiledRule.sequence, CompiledRule.codes]
  | reset =>
      simp [step, writtenAt, here, Emission.written, CompiledRule.sequence, CompiledRule.codes]

theorem emissions_take (rules : RuleSet) (tokens : List Token) (position : Nat) :
    (rules.emissions [] (tokens.take position)).flatMap (Emission.written .styled) =
      (List.range position).flatMap (rules.writtenAt tokens) := by
  induction position with
  | zero => rfl
  | succ position inductionHypothesis =>
      rw [List.take_add_one, emissions_append, List.flatMap_append, inductionHypothesis,
        List.range_succ, List.flatMap_append, List.flatMap_singleton]
      congr 1
      cases here : tokens[position]? with
      | none => simp [writtenAt, here, emissions]
      | some token =>
          rw [← step_written here]
          simp [emissions]

/-- The stack renderer matches marks like brackets: the rendered text is what
`writtenAt` says, position by position, and no closing mark matches two opening
marks. -/
theorem render_matches_brackets (rules : RuleSet) (tokens : List Token) :
    rules.render .styled tokens =
        (List.range tokens.length).flatMap (rules.writtenAt tokens) ∧
      ∀ closer first second, rules.Matches tokens first closer →
        rules.Matches tokens second closer → first = second := by
  constructor
  · rw [render, ← emissions_take, List.take_length]
  · intro closer first second one other
    exact one.unique other

end

end TerminalMarkup.RuleSet
