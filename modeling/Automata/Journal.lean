/-!
# Journals

A journal is a computation that writes entries while it runs and ends in a value or an error. The
entries written before an error stay: whoever reads the journal sees how far the computation came.
Apart from its entries a journal computes in `Except`: `outcome` turns `bind` into `bind`.
-/

namespace Automata

/-- The entries written by a computation, in order, and how it ended. -/
structure Journal (ρ ε α : Type) where
  entries : List ρ
  outcome : Except ε α

namespace Journal

variable {ρ ε α β : Type}

instance : Monad (Journal ρ ε) where
  pure a := ⟨[], .ok a⟩
  bind x f :=
    match x.outcome with
    | .ok a => ⟨x.entries ++ (f a).entries, (f a).outcome⟩
    | .error e => ⟨x.entries, .error e⟩

instance : MonadExceptOf ε (Journal ρ ε) where
  throw e := ⟨[], .error e⟩
  tryCatch x handle :=
    match x.outcome with
    | .ok a => ⟨x.entries, .ok a⟩
    | .error e => ⟨x.entries ++ (handle e).entries, (handle e).outcome⟩

/-- A plain computation writes nothing. -/
instance : MonadLift (Except ε) (Journal ρ ε) where
  monadLift x := ⟨[], x⟩

/-- Writes entries. -/
def writeAll (entries : List ρ) : Journal ρ ε Unit := ⟨entries, .ok ()⟩

/-- Writes one entry. -/
def write (entry : ρ) : Journal ρ ε Unit := writeAll [entry]

/-- Rewords the entries and the error of a journal. -/
def relabel {ρ' ε' : Type} (entry : ρ → ρ') (error : ε → ε') (x : Journal ρ ε α) :
    Journal ρ' ε' α :=
  ⟨x.entries.map entry, x.outcome.mapError error⟩

@[simp] theorem outcome_pure (a : α) : (pure a : Journal ρ ε α).outcome = .ok a := rfl

/-- What was written has no influence on what comes out. -/
@[simp] theorem outcome_bind (x : Journal ρ ε α) (f : α → Journal ρ ε β) :
    (x >>= f).outcome = x.outcome >>= fun a => (f a).outcome := by
  cases h : x.outcome <;> simp [bind, Except.bind, h]

@[simp] theorem outcome_writeAll (entries : List ρ) :
    (writeAll entries : Journal ρ ε Unit).outcome = .ok () := rfl

@[simp] theorem outcome_write (entry : ρ) :
    (write entry : Journal ρ ε Unit).outcome = .ok () := rfl

end Journal

end Automata
