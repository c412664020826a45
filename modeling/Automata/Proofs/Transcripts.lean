import Automata.Automaton.Batch
import Automata.Demo.Session
import Automata.Language.Decision
import Automata.Proofs.Checked

/-!
# What a session shows

A program is a session: it prints lines between the log records that the library leaves. What of it
shows is its transcript at the level that a reader asks for, with the records in some layout.
`Shows` says how a session ends in a value and which lines show until then, and the lines of a chain
are those of its steps one after the other; `Stops` says the same of a session that ends early.
Computations of the library are `Quiet`: none of their records shows at the coarsest level, so a
session that runs them shows what it prints itself and nothing else, in whatever layout.
-/

namespace Automata

/-- None of the records shows at the coarsest level. -/
def Journal.Quiet {ε α : Type} (x : Logged ε α) : Prop :=
  ∀ r ∈ x.entries, r.shownAt .info = false

namespace Journal

variable {ε α β : Type}

theorem quiet_pure (a : α) : (pure a : Logged ε α).Quiet := fun _ hr => nomatch hr

/-- A computation without a log leaves no records. -/
theorem quiet_liftM (x : Except ε α) : (liftM x : Logged ε α).Quiet := fun _ hr => nomatch hr

theorem quiet_throw (e : ε) : (throw e : Logged ε α).Quiet := fun _ hr => nomatch hr

/-- Any number of records may be written that the reader of the coarsest level does not ask for. -/
theorem quiet_writeAll {records : List Record} (h : ∀ r ∈ records, r.shownAt .info = false) :
    (writeAll records : Logged ε Unit).Quiet := h

/-- The same of a single record. -/
theorem quiet_record {r : Record} (h : r.shownAt .info = false) :
    (record r : Logged ε Unit).Quiet :=
  quiet_writeAll (List.forall_mem_singleton.mpr h)

/-- A chain leaves the records of its steps, one after the other, so it is quiet when all of them
are. -/
theorem Quiet.bind {x : Logged ε α} {f : α → Logged ε β} (hx : x.Quiet) (hf : ∀ a, (f a).Quiet) :
    (x >>= f).Quiet := by
  obtain ⟨entries, outcome⟩ := x
  cases outcome with
  | error e => exact hx
  | ok a =>
    intro r hr
    exact (List.mem_append.mp hr).elim (hx r) (hf a r)

end Journal

/-! ## The library is quiet -/

namespace Automaton

open Journal

variable {S Q M : Type} [Indexed S] [Indexed Q] [Indexed M]

/-- The record of an automaton that was made is for debugging. -/
theorem quiet_make {ε : Type} (start : Q) (terminal : StateSet Q) (transition : Transition S Q) :
    (make start terminal transition : Logged ε _).Quiet :=
  (quiet_record rfl).bind fun _ => quiet_pure _

theorem quiet_ofFunction (start : Q) (isTerminal : Q → Bool) (f : Q → S → Checked Q) :
    (ofFunction start isTerminal f).Quiet :=
  (quiet_liftM _).bind fun _ => quiet_make _ _ _

/-- A complement leaves two records, its own and that of the automaton it makes. -/
theorem quiet_complement (a : Automaton S Q) : a.complement.Quiet :=
  (quiet_record rfl).bind fun _ => quiet_make _ _ _

theorem quiet_intersect (a : Automaton S Q) (b : Automaton S M) : (a.intersect b).Quiet :=
  (quiet_record rfl).bind fun _ => (quiet_liftM _).bind fun _ => quiet_make _ _ _

/-- A union leaves its own record and what its complements and its intersection leave. -/
theorem quiet_union (a : Automaton S Q) (b : Automaton S M) : (a.union b).Quiet :=
  (quiet_record rfl).bind fun _ => (quiet_complement a).bind fun _ => (quiet_complement b).bind
    fun _ => (quiet_intersect _ _).bind fun _ => quiet_complement _

theorem quiet_difference (a : Automaton S Q) (b : Automaton S M) : (a.difference b).Quiet :=
  (quiet_record rfl).bind fun _ => (quiet_complement b).bind fun _ => quiet_intersect _ _

/-- A symmetric difference is made of two intersections with complements, and each of these leaves
what it leaves on its own. -/
theorem quiet_symmetricDifference (a : Automaton S Q) (b : Automaton S M) :
    (a.symmetricDifference b).Quiet :=
  (quiet_record rfl).bind fun _ => (quiet_complement b).bind fun _ => (quiet_intersect _ _).bind
    fun _ => (quiet_complement a).bind fun _ => (quiet_intersect _ _).bind fun _ =>
      (quiet_liftM _).bind fun _ => quiet_make _ _ _

/-- A table that is there is kept without a record; one that is made leaves records. -/
theorem quiet_tabulate (a : Automaton S Q) : a.tabulate.Quiet := by
  unfold tabulate
  split
  · exact quiet_pure _
  · exact (quiet_record rfl).bind fun _ => (quiet_liftM _).bind fun _ => quiet_make _ _ _

/-- A batch leaves one record, before the first word is run, however it is cut. -/
theorem quiet_acceptsBatch (a : Automaton S Q) (words : List (List S)) (settings : BatchSettings)
    (schedule : Schedule) : (a.acceptsBatch words settings schedule).Quiet :=
  (quiet_record rfl).bind fun _ => quiet_liftM _

/-- Visits are for the finest level, and what is said behind them is for debugging. -/
theorem quiet_reachableStates (a : Automaton S Q) : a.reachableStates.Quiet := by
  refine (quiet_liftM _).bind fun found => ?_
  obtain ⟨search, ending⟩ := found
  -- the visits, one for each state that was expanded
  have hvisits : ∀ r ∈ search.expanded.map fun q => Record.visiting (Indexed.describe q),
      r.shownAt .info = false := by
    intro r hr
    obtain ⟨q, _, rfl⟩ := List.mem_map.mp hr
    rfl
  refine (quiet_writeAll hvisits).bind fun _ => ?_
  cases ending with
  | failed fault => exact quiet_throw fault
  | exhausted => exact (quiet_record rfl).bind fun _ => quiet_pure _
  | reached q => exact (quiet_record rfl).bind fun _ => quiet_pure _

theorem quiet_isEmpty (a : Automaton S Q) : a.isEmpty.Quiet :=
  (quiet_reachableStates a).bind fun _ => quiet_pure _

/-- A comparison leaves the records of a combination and of a search. -/
theorem quiet_isSubsetOf (a : Automaton S Q) (b : Automaton S M) : (a.isSubsetOf b).Quiet :=
  (quiet_difference a b).bind fun _ => quiet_isEmpty _

/-- A search for a word leaves one record in the end, whether a word was found or not. -/
theorem quiet_shortestAccepted (a : Automaton S Q) : a.shortestAccepted.Quiet := by
  refine (quiet_liftM _).bind fun found => ?_
  obtain ⟨search, ending⟩ := found
  cases ending with
  | failed fault => exact quiet_throw fault
  | exhausted => exact (quiet_record rfl).bind fun _ => quiet_pure _
  | reached q =>
    exact (quiet_liftM _).bind fun _ => (quiet_record rfl).bind fun _ => quiet_pure _

theorem quiet_distinguishingWord (a : Automaton S Q) (b : Automaton S M) :
    (a.distinguishingWord b).Quiet :=
  (quiet_symmetricDifference a b).bind fun _ => quiet_shortestAccepted _

end Automaton

/-! ## Sessions -/

namespace Demo

variable {α β : Type} {layout : Layout} {level : Level}

/-- The session ends in a value, and until then the lines show. -/
structure Shows (layout : Layout) (level : Level) (x : Session α) (lines : List String) (a : α) :
    Prop where
  outcome_eq : x.outcome = .ok a
  lines_eq : x.entries.filterMap (Event.shown? layout level) = lines

theorem shows_pure (a : α) : Shows layout level (pure a) [] a := ⟨rfl, rfl⟩

/-- A printed line shows at all levels. -/
theorem shows_say (text : String) : Shows layout level (say text) [text] () := ⟨rfl, rfl⟩

/-- The lines of a chain are those of its steps, one after the other. -/
theorem Shows.bind {x : Session α} {f : α → Session β} {lines lines' : List String} {a : α} {b : β}
    (hx : Shows layout level x lines a) (hf : Shows layout level (f a) lines' b) :
    Shows layout level (x >>= f) (lines ++ lines') b := by
  obtain ⟨entries, outcome⟩ := x
  obtain ⟨rfl, rfl⟩ := hx
  refine ⟨hf.outcome_eq, ?_⟩
  rw [← hf.lines_eq, ← List.filterMap_append]
  rfl

/-- A step that shows nothing leaves all lines to the steps behind it. -/
theorem Shows.silent_bind {x : Session α} {f : α → Session β} {lines : List String} {a : α} {b : β}
    (hx : Shows layout level x [] a) (hf : Shows layout level (f a) lines b) :
    Shows layout level (x >>= f) lines b :=
  hx.bind hf

/-- A line that is printed stands before those of the steps behind it. -/
theorem Shows.say_bind {text : String} {f : Unit → Session β} {lines : List String} {b : β}
    (hf : Shows layout level (f ()) lines b) :
    Shows layout level (say text >>= f) (text :: lines) b :=
  (shows_say text).bind hf

/-- A record of the level shows in the layout. -/
theorem shows_record {r : Record} (h : r.shownAt level) :
    Shows layout level (Journal.write (.logged r)) [layout r.level r.text] () := by
  refine ⟨rfl, ?_⟩
  have hshown : Event.shown? layout level (.logged r) = some (layout r.level r.text) := if_pos h
  exact List.filterMap_cons_some hshown

/-- A computation that only stops or gives a value shows nothing. -/
theorem shows_liftM {x : Except Stop α} {a : α} (h : x = .ok a) :
    Shows layout level (liftM x : Session α) [] a := by
  subst h
  exact ⟨rfl, rfl⟩

/-- A computation of the library without a log shows nothing. -/
theorem shows_checked {x : Checked α} {a : α} (h : x = .ok a) :
    Shows layout level (liftM x : Session α) [] a := by
  subst h
  exact ⟨rfl, rfl⟩

/-- A quiet computation of the library shows nothing at the coarsest level. -/
theorem shows_quiet {x : Logged Fault α} {a : α} (hx : x.Quiet) (h : x.outcome = .ok a) :
    Shows layout .info (liftM x : Session α) [] a := by
  obtain ⟨entries, outcome⟩ := x
  obtain rfl : outcome = .ok a := h
  refine ⟨rfl, List.filterMap_eq_nil_iff.mpr fun event hevent => ?_⟩
  obtain ⟨r, hr, rfl⟩ := List.mem_map.mp hevent
  show (if r.shownAt .info then some (layout r.level r.text) else none) = none
  rw [hx r hr]
  rfl

/-- Reading a command line shows nothing. -/
theorem shows_arguments {c : CommandLine.Command} {args : List String} {r : CommandLine.Reading}
    (h : c.read args = .ok r) : Shows layout level (arguments c args) [] r := by
  rw [arguments, h]
  exact ⟨rfl, rfl⟩

/-- A session that ends in a value shows its lines, and there is no early end to give a reason
for. -/
theorem Shows.transcript_eq {x : Session Unit} {lines : List String}
    (h : Shows layout level x lines ()) : transcript layout level x = (lines, none) := by
  rw [transcript, h.outcome_eq, h.lines_eq]

/-- A session shows what it shows behind a first step that shows nothing. -/
theorem Shows.transcript_bind {x : Session α} {a : α} (hx : Shows layout level x [] a)
    (f : α → Session Unit) : transcript layout level (x >>= f) = transcript layout level (f a) := by
  obtain ⟨entries, outcome⟩ := x
  obtain ⟨rfl, hlines⟩ := hx
  have hentries : (entries ++ (f a).entries).filterMap (Event.shown? layout level) =
      (f a).entries.filterMap (Event.shown? layout level) := by
    rw [List.filterMap_append, hlines, List.nil_append]
  exact congrArg (fun lines => (lines, _)) hentries

/-! ## Sessions that stop early -/

/-- The session stops early, and until then the lines show. -/
structure Stops (layout : Layout) (level : Level) (x : Session α) (lines : List String)
    (stop : Stop) : Prop where
  outcome_eq : x.outcome = .error stop
  lines_eq : x.entries.filterMap (Event.shown? layout level) = lines

/-- A computation that stops shows nothing. -/
theorem stops_liftM {x : Except Stop α} {stop : Stop} (h : x = .error stop) :
    Stops layout level (liftM x : Session α) [] stop := by
  subst h
  exact ⟨rfl, rfl⟩

/-- What stops a step stops the whole session. -/
theorem Stops.bind {x : Session α} {lines : List String} {stop : Stop}
    (hx : Stops layout level x lines stop) (f : α → Session β) :
    Stops layout level (x >>= f) lines stop := by
  obtain ⟨entries, outcome⟩ := x
  obtain ⟨rfl, rfl⟩ := hx
  exact ⟨rfl, rfl⟩

/-- What shows before the step that stops the session stands before what this step shows. -/
theorem Shows.bind_stops {x : Session α} {f : α → Session β} {lines lines' : List String} {a : α}
    {stop : Stop} (hx : Shows layout level x lines a) (hf : Stops layout level (f a) lines' stop) :
    Stops layout level (x >>= f) (lines ++ lines') stop := by
  obtain ⟨entries, outcome⟩ := x
  obtain ⟨rfl, rfl⟩ := hx
  refine ⟨hf.outcome_eq, ?_⟩
  rw [← hf.lines_eq, ← List.filterMap_append]
  rfl

/-- A session that stops early shows its lines up to the stop, and why it stopped. -/
theorem Stops.transcript_eq {x : Session Unit} {lines : List String} {stop : Stop}
    (h : Stops layout level x lines stop) : transcript layout level x = (lines, some stop) := by
  rw [transcript, h.outcome_eq, h.lines_eq]

end Demo

end Automata
