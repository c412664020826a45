import Automata.CommandLine
import Automata.Proofs.Checked

/-!
# What a command line gives

A command line is read from left to right, and the value of an argument may be looked at only when a
later one is read. For a command whose positional arguments are texts this makes no difference: no
text is refused. So behind two dashes, where every argument is positional, the arguments are taken
as they are, whatever they look like (`Command.read_append_dashes`).
-/

namespace Automata.CommandLine

variable {c : Command} {r : Reading}

namespace Reading

/-- The positional arguments so far, the one included whose value was not looked at. -/
def texts (r : Reading) : List String :=
  match r.pending with
  | some (.positional text) => r.positionals ++ [text]
  | _ => r.positionals

/-- A positional argument is read, and those before it are looked at. -/
def withText (r : Reading) (text : String) : Reading :=
  { r with positionals := r.texts, pending := some (.positional text) }

/-- No option waits for its value to be looked at. -/
def NoOptionPending (r : Reading) : Prop := ∀ name value, r.pending ≠ some (.option name value)

theorem settle_eq_ok (hc : c.positionals = .texts) (h : r.NoOptionPending) :
    r.settle c = .ok { r with positionals := r.texts, pending := none } := by
  obtain ⟨options, flags, positionals, pending, literal⟩ := r
  cases pending with
  | none => rfl
  | some p =>
    cases p with
    | option name value => exact absurd rfl (h name value)
    | positional text => simp only [settle, hc, texts]

/-- A text is taken, and it is looked at when the next one comes. -/
theorem readPositional_eq_ok (hc : c.positionals = .texts) (h : r.NoOptionPending) (text : String) :
    r.readPositional c text = .ok (r.withText text) := by
  simp only [readPositional, hc, if_true]
  rw [settle_eq_ok hc h]
  rfl

/-- Behind two dashes every argument is positional. -/
theorem foldlM_read_literal (hc : c.positionals = .texts) : ∀ (words : List String) {r : Reading},
    r.literal = true → r.NoOptionPending → (words.foldlM (read c) r >>= settle c) =
      .ok { r with positionals := r.texts ++ words, pending := none } := by
  intro words
  induction words with
  | nil =>
    intro r _ h
    rw [List.append_nil]
    exact settle_eq_ok hc h
  | cons word words ih =>
    intro r hliteral h
    have hnext : (r.withText word).NoOptionPending := fun _ _ heq => nomatch heq
    rw [List.foldlM_cons, read, if_pos hliteral, readPositional_eq_ok hc h, ok_bind,
      ih (r := r.withText word) hliteral hnext]
    simp only [texts, withText, List.append_assoc, List.singleton_append]

/-- An option with its value behind an equals sign. -/
theorem read_eq_readLong (hliteral : r.literal = false) {arg : String} {name value : List Char}
    (harg : arg.toList = '-' :: '-' :: (name ++ '=' :: value)) (hname : '=' ∉ name) :
    r.read c arg = r.readLong c (String.ofList name) (some (String.ofList value)) := by
  have hpass : ∀ x ∈ name, (x != '=') = true := fun x hx =>
    bne_iff_ne.mpr (ne_of_mem_of_not_mem hx hname)
  have htake : (name ++ '=' :: value).takeWhile (· != '=') = name := by
    rw [List.takeWhile_append_of_pos hpass, List.takeWhile_cons_of_neg (by decide), List.append_nil]
  have hdrop : (name ++ '=' :: value).dropWhile (· != '=') = '=' :: value := by
    rw [List.dropWhile_append_of_pos hpass, List.dropWhile_cons_of_neg (by decide)]
  rw [read, hliteral, harg]
  -- behind the dashes stands the equals sign at least
  cases hrest : name ++ '=' :: value with
  | nil => exact absurd hrest (by simp)
  | cons x rest =>
    rw [hrest] at htake hdrop
    simp only [htake, hdrop]
    rfl

end Reading

/-- What stands behind two dashes is read as it is written. -/
theorem Command.read_append_dashes (hc : c.positionals = .texts) {front : List String}
    (hfront : front.foldlM (Reading.read c) {} = .ok r) (hliteral : r.literal = false)
    (h : r.NoOptionPending) (words : List String) :
    c.read (front ++ "--" :: words) =
      .ok { r with positionals := r.texts ++ words, pending := none, literal := true } := by
  have hdashes : r.read c "--" = .ok { r with literal := true } := by
    rw [Reading.read, hliteral]
    rfl
  rw [Command.read, List.foldlM_append, hfront, ok_bind, List.foldlM_cons, hdashes, ok_bind]
  exact Reading.foldlM_read_literal hc words rfl h

end Automata.CommandLine
