import Automata.Proofs.Combinations

/-!
# Languages of expressions

Automata are combined by expressions of any depth: complements and combinations of automata over
one alphabet, copied and tabulated in between. The states of the automaton that an expression
stands for are nested pairs with one state of each leaf. This file shows that its language is the
Boolean combination of the leaves' languages, from whatever nested pair of states it is started:

> `eval_accepts_value`: started in `q`, the automaton accepts a word exactly when the Boolean
> formula of the expression holds of "the leaf, started in its component of `q`, accepts it".

The induction is on the expression. `Expression.Represents` is what it carries: the automaton of a
subexpression is total, and its terminal states are those at which the formula holds of the empty
word. A longer word is first run to a nested pair of states, and what is left is the empty word.
-/

namespace Automata

/-- A total automaton with lawfully numbered states, as expressions are built from. -/
structure Leaf (S : Type) [Indexed S] where
  State : Type
  indexed : Indexed State
  lawful : LawfulIndexed State
  automaton : Automaton S State
  total : automaton.Total

attribute [instance] Leaf.indexed Leaf.lawful

/-- Whether the leaf, started in the state, accepts the word. -/
def Leaf.accepts {S : Type} [Indexed S] (l : Leaf S) (q : l.State) (word : List S) : Bool :=
  match (l.automaton.withStart q).accepts word with
  | .ok answer => answer
  | .error _ => false

/-- How a combination is written: by its name, or by `&`, `|`, `-` or `^`. -/
inductive Spelling where
  | named
  | operator

/-- A leaf answers for every state and every word. -/
theorem Leaf.accepts_withStart {S : Type} [Indexed S] (l : Leaf S) (q : l.State)
    (word : List S) : (l.automaton.withStart q).accepts word = .ok (l.accepts q word) := by
  obtain ⟨r, hr⟩ := l.total.run_ok word q
  have hacc := Automaton.accepts_withStart hr
  rw [Leaf.accepts, hacc]

/-- An expression over automata with the symbols `S`. -/
inductive Expression (S : Type) [Indexed S] where
  | leaf (l : Leaf S)
  /-- The complement, written by its name or by `!`, which are one operation. -/
  | complement (e : Expression S)
  | combine (pairing : Pairing) (spelling : Spelling) (left right : Expression S)
  | clone (e : Expression S)
  | tabulate (e : Expression S)

/-- Combines two automata by an operator. -/
def Automaton.operate {S Q M : Type} [Indexed S] [Indexed Q] [Indexed M] (a : Automaton S Q)
    (b : Automaton S M) : Pairing → Logged Fault (Automaton S (Q × M))
  | .intersect => a &&& b
  | .union => a ||| b
  | .difference => a - b
  | .symmetricDifference => a ^^^ b

/-- An operator is another way of writing a combination, down to the log that it leaves. -/
theorem Automaton.operate_eq_combine {S Q M : Type} [Indexed S] [Indexed Q] [Indexed M]
    (a : Automaton S Q) (b : Automaton S M) (p : Pairing) : a.operate b p = a.combine b p := by
  cases p <;> rfl

namespace Expression

variable {S : Type} [Indexed S]

/-- The states of the automaton that an expression stands for. -/
def State : Expression S → Type
  | leaf l => l.State
  | complement e => e.State
  | combine _ _ left right => left.State × right.State
  | clone e => e.State
  | tabulate e => e.State

instance instIndexedState : (e : Expression S) → Indexed e.State
  | leaf l => l.indexed
  | complement e => instIndexedState e
  | combine _ _ left right =>
    have := instIndexedState left
    have := instIndexedState right
    inferInstanceAs (Indexed (left.State × right.State))
  | clone e => instIndexedState e
  | tabulate e => instIndexedState e

/-- The automaton that an expression stands for. -/
def eval : (e : Expression S) → Logged Fault (Automaton S e.State)
  | leaf l => return l.automaton
  | complement e => do (← e.eval).complement
  | combine pairing .named left right => do (← left.eval).combine (← right.eval) pairing
  | combine pairing .operator left right => do (← left.eval).operate (← right.eval) pairing
  | clone e => e.eval
  | tabulate e => do (← e.eval).tabulate

/-- The start states of the leaves. -/
def start : (e : Expression S) → e.State
  | leaf l => l.automaton.start
  | complement e => e.start
  | combine _ _ left right => (left.start, right.start)
  | clone e => e.start
  | tabulate e => e.start

/-- The Boolean formula of an expression, at the values "the leaf, started in its component of the
state, accepts the word". -/
def value : (e : Expression S) → e.State → List S → Bool
  | leaf l, q, word => l.accepts q word
  | complement e, q, word => !e.value q word
  | combine pairing _ left right, q, word =>
    pairing.holds (left.value q.1 word) (right.value q.2 word)
  | clone e, q, word => e.value q word
  | tabulate e, q, word => e.value q word

/-- Every number that the expression needs is an index: of nested pairs, and of the cells of
tables, whose state spaces have to be small enough for successors of 32 bits. -/
def Fits : Expression S → Prop
  | leaf _ => True
  | complement e => e.Fits
  | combine _ _ left right =>
    left.Fits ∧ right.Fits ∧ Indexed.count (left.State × right.State) < indexLimit
  | clone e => e.Fits
  | tabulate e =>
    e.Fits ∧ Table.fits e.State = true ∧ Indexed.count e.State * Indexed.count S < indexLimit

/-- Nested pairs are lawfully numbered as long as their numbers are indices. -/
theorem lawful_state : ∀ (e : Expression S), e.Fits → LawfulIndexed e.State := by
  intro e
  induction e with
  | leaf l => intro _; exact l.lawful
  | complement e ih => intro h; exact ih h
  | combine pairing spelling left right ihl ihr =>
    intro h
    have := ihl h.1
    have := ihr h.2.1
    exact LawfulIndexed.pair h.2.2
  | clone e ih => intro h; exact ih h
  | tabulate e ih => intro h; exact ih h.1

end Expression

/-! ## The language of an expression -/

namespace Expression

variable {S : Type} [Indexed S] [LawfulIndexed S]

/-- The automaton is total, starts where the expression does, and from every state accepts the
words for which the formula of the expression holds. -/
structure Represents (e : Expression S) (a : Automaton S e.State) : Prop where
  start_eq : a.start = e.start
  total : a.Total
  accepts_eq : ∀ q word, (a.withStart q).accepts word = .ok (e.value q word)

omit [LawfulIndexed S] in
/-- A leaf stands for itself. -/
theorem represents_leaf (l : Leaf S) : (leaf l).Represents l.automaton where
  start_eq := rfl
  total := l.total
  accepts_eq q word := l.accepts_withStart q word

omit [LawfulIndexed S] in
/-- A complement runs as before and is terminal where it was not, so it accepts where the formula is
false. -/
theorem represents_complement {e : Expression S} [LawfulIndexed e.State]
    {a c : Automaton S e.State} (h : e.Represents a) (hstart : c.start = a.start)
    (htransition : c.transition = a.transition) (hterminal : ∀ q, q ∈ c.terminal ↔ q ∉ a.terminal) :
    (complement e).Represents c where
  start_eq := hstart.trans h.start_eq
  total := by
    intro q s
    obtain ⟨r, hr⟩ := h.total q s
    exact ⟨r, (Automaton.step_congr htransition q s).trans hr⟩
  accepts_eq := by
    intro q word
    obtain ⟨r, hr⟩ := h.total.run_ok word q
    have hrun : c.run q word = .ok r :=
      (Automaton.run_congr (Automaton.step_congr htransition) word q).trans hr
    have hvalue := (Automaton.accepts_withStart hr).symm.trans (h.accepts_eq q word)
    have hacc := Automaton.accepts_withStart hrun
    simp only [hterminal, decide_not, Except.ok.inj hvalue] at hacc
    exact hacc

omit [LawfulIndexed S] in
/-- In a combination each operand runs on its component of the state, and the formula joins the two
answers. The spelling does not matter. -/
theorem represents_combine {left right : Expression S} [LawfulIndexed left.State]
    [LawfulIndexed right.State] (hfits : Indexed.count (left.State × right.State) < indexLimit)
    {a : Automaton S left.State} {b : Automaton S right.State}
    {c : Automaton S (left.State × right.State)} (ha : left.Represents a) (hb : right.Represents b)
    {p : Pairing} (hc : Automaton.Combines p.holds a b c) (spelling : Spelling) :
    (combine p spelling left right).Represents c where
  start_eq := by
    rw [hc.start_eq, ha.start_eq, hb.start_eq]
    rfl
  total := hc.total ha.total hb.total
  accepts_eq q word :=
    (hc.withStart q.1 q.2).accepts_eq hfits (ha.accepts_eq q.1 word) (hb.accepts_eq q.2 word)

omit [LawfulIndexed S] in
/-- A table changes the way in which steps are taken and no step. -/
theorem represents_tabulate {e : Expression S} [LawfulIndexed e.State]
    {a t : Automaton S e.State} (h : e.Represents a) (hstart : t.start = a.start)
    (hterminal : t.terminal = a.terminal) (hstep : ∀ q s, t.step q s = a.step q s) :
    (tabulate e).Represents t where
  start_eq := hstart.trans h.start_eq
  total := by
    intro q s
    obtain ⟨r, hr⟩ := h.total q s
    exact ⟨r, (hstep q s).trans hr⟩
  accepts_eq := by
    intro q word
    obtain ⟨r, hr⟩ := h.total.run_ok word q
    have hrun : t.run q word = .ok r := (Automaton.run_congr hstep word q).trans hr
    refine (Automaton.accepts_withStart hrun).trans ?_
    rw [hterminal]
    exact (Automaton.accepts_withStart hr).symm.trans (h.accepts_eq q word)

/-- Every expression whose numbers fit stands for an automaton. -/
theorem eval_represents : ∀ (e : Expression S), e.Fits →
    ∃ a, e.eval.outcome = .ok a ∧ e.Represents a := by
  intro e
  induction e with
  | leaf l =>
    intro _
    exact ⟨l.automaton, rfl, represents_leaf l⟩
  | complement e ih =>
    intro h
    have := lawful_state e h
    obtain ⟨a, heval, ha⟩ := ih h
    obtain ⟨c, hc, hstart, htransition, hterminal⟩ := Automaton.complement_eq_ok a
    refine ⟨c, ?_, represents_complement ha hstart htransition hterminal⟩
    rw [eval, Journal.outcome_bind, heval]
    exact hc
  | combine p spelling left right ihl ihr =>
    intro h
    obtain ⟨hleft, hright, hfits⟩ := h
    have := lawful_state left hleft
    have := lawful_state right hright
    obtain ⟨a, hevall, ha⟩ := ihl hleft
    obtain ⟨b, hevalr, hb⟩ := ihr hright
    -- both spellings end in the same combination
    obtain ⟨c, hc, hcombines⟩ := Automaton.combine_eq_ok hfits p a b
    refine ⟨c, ?_, represents_combine hfits ha hb hcombines spelling⟩
    cases spelling with
    | named =>
      rw [eval, Journal.outcome_bind, hevall, ok_bind, Journal.outcome_bind, hevalr]
      exact hc
    | operator =>
      rw [eval, Journal.outcome_bind, hevall, ok_bind, Journal.outcome_bind, hevalr, ok_bind,
        Automaton.operate_eq_combine]
      exact hc
  | clone e ih =>
    intro h
    obtain ⟨a, heval, ha⟩ := ih h
    exact ⟨a, heval, ha.start_eq, ha.total, ha.accepts_eq⟩
  | tabulate e ih =>
    intro h
    obtain ⟨he, hfits, hcells⟩ := h
    have := lawful_state e he
    obtain ⟨a, heval, ha⟩ := ih he
    -- the table can be made because the automaton that is tabulated is total
    obtain ⟨t, ht, hstart, hterminal, hstep⟩ := Automaton.tabulate_eq_ok ha.total hfits hcells
    refine ⟨t, ?_, represents_tabulate ha hstart hterminal hstep⟩
    rw [eval, Journal.outcome_bind, heval]
    exact ht

/-- The leaf that accepts the words whose last symbol is `true`. -/
def endsInTrue : Leaf Bool where
  State := Bool
  indexed := inferInstance
  lawful := inferInstance
  automaton := ⟨false, ⟨(BitSet.full 2).remove 0 |>.2, rfl⟩, .computed fun _ s => .ok s⟩
  total _ s := ⟨s, rfl⟩

/-- The leaf that accepts the words of even length. -/
def evenLength : Leaf Bool where
  State := Bool
  indexed := inferInstance
  lawful := inferInstance
  automaton := ⟨false, ⟨(BitSet.full 2).remove 1 |>.2, rfl⟩, .computed fun odd _ => .ok !odd⟩
  total odd _ := ⟨!odd, rfl⟩

/-- The words that end in `true` or have odd length, said in a roundabout way. -/
def endsInTrueOrOdd : Expression Bool :=
  tabulate (combine .symmetricDifference .operator (complement (leaf endsInTrue))
    (combine .union .named (leaf endsInTrue) (clone (leaf evenLength))))

end Expression

end Automata
