import FlagAudit.Proofs.Run

/-!
# What a computation gives and what it reports

Messages are only ever added at the end, and no step looks at those that are there already. So a
computation that reports messages is known by what it gives and by the messages that it adds, whatever
has been reported before.
-/

namespace FlagAudit

variable {α β : Type} {ms ms' : List Message}

/-- A computation that cannot fail gives a value and adds some messages, whatever has been reported
before. -/
def Reports (x : Reporting α) (a : α) (ms : List Message) : Prop :=
  ∀ log, x.run log = (a, log ++ ms)

/-- A computation gives a result and adds some messages, whatever has been reported before. -/
def Yields (x : Audit α) (result : Except Failure α) (ms : List Message) : Prop :=
  ∀ log, x.run.run log = (result, log ++ ms)

/-! ### Computations that cannot fail -/

theorem Reports.pure (a : α) : Reports (Pure.pure a) a [] := fun log => by
  rw [List.append_nil]
  rfl

theorem Reports.report (level : Level) (text : String) :
    Reports (Run.report level text) () [⟨level, text⟩] := fun _ => rfl

theorem Reports.bind {x : Reporting α} {a : α} {f : α → Reporting β} {b : β} (hx : Reports x a ms)
    (hf : Reports (f a) b ms') : Reports (x >>= f) b (ms ++ ms') := by
  intro log
  rw [StateT.run_bind, hx log]
  change (f a).run (log ++ ms) = _
  rw [hf, List.append_assoc]

/-- A computation for each element of a list gives a value for each, and the messages of all. -/
theorem Reports.mapM {f : α → Reporting β} {value : α → β} {messages : α → List Message}
    (h : ∀ a, Reports (f a) (value a) (messages a)) (l : List α) :
    Reports (l.mapM f) (l.map value) (l.flatMap messages) := by
  induction l with
  | nil => exact .pure []
  | cons a rest ih =>
    have hrest : Reports (do
        let others ← rest.mapM f
        return value a :: others) (value a :: rest.map value) (rest.flatMap messages ++ []) :=
      ih.bind (.pure _)
    rw [List.append_nil] at hrest
    rw [List.mapM_cons, List.map_cons, List.flatMap_cons]
    exact (h a).bind hrest

/-! ### Computations that can fail -/

/-- There is only one result, and one list of messages. -/
theorem Yields.unique {x : Audit α} {result result' : Except Failure α} (h : Yields x result ms)
    (h' : Yields x result' ms') : result = result' ∧ ms = ms' :=
  Prod.mk.inj ((h []).symm.trans (h' []))

theorem Yields.pure (a : α) : Yields (Pure.pure a) (.ok a) [] := fun log => by
  rw [List.append_nil]
  rfl

theorem Yields.throw (e : Failure) : Yields (MonadExcept.throw e : Audit α) (.error e) [] := fun log => by
  rw [List.append_nil]
  rfl

/-- A result that is known adds no messages. -/
theorem Yields.result (result : Except Failure α) : Yields (ExceptT.mk (Pure.pure result)) result [] :=
  fun log => by
    rw [List.append_nil]
    rfl

theorem Yields.lift {x : Reporting α} {a : α} (h : Reports x a ms) :
    Yields (liftM x) (.ok a) ms := by
  intro log
  change ((.ok (x.run log).1, (x.run log).2) : Except Failure α × List Message) = _
  rw [h log]

/-- What follows a computation that does not fail adds its messages behind those that it has added. -/
theorem Yields.bind {x : Audit α} {a : α} {f : α → Audit β} {result : Except Failure β}
    (hx : Yields x (.ok a) ms) (hf : Yields (f a) result ms') :
    Yields (x >>= f) result (ms ++ ms') := by
  intro log
  rw [Run.run_bind, hx log]
  change (f a).run.run (log ++ ms) = _
  rw [hf, List.append_assoc]

/-- A report comes before the messages of what follows it. -/
theorem Yields.report {x : Audit α} {result : Except Failure α} (level : Level) (text : String)
    (hx : Yields x result ms) : Yields (do
      Run.report level text
      x) result (⟨level, text⟩ :: ms) :=
  .bind (.lift (.report level text)) hx

/-- Nothing follows a failure. -/
theorem Yields.bind_error {x : Audit α} {e : Failure} (f : α → Audit β)
    (hx : Yields x (.error e) ms) : Yields (x >>= f) (.error e) ms := by
  intro log
  rw [Run.run_bind, hx log]

/-- A failure is handed over with the messages that came before it. -/
theorem Yields.tryCatch {x : Audit α} {e : Failure} {handle : Failure → Audit α}
    {result : Except Failure α} (hx : Yields x (.error e) ms) (hhandle : Yields (handle e) result ms') :
    Yields (tryCatch x handle) result (ms ++ ms') := by
  intro log
  rw [ExceptT.run_tryCatch, StateT.run_bind, hx log]
  change (handle e).run.run (log ++ ms) = _
  rw [hhandle, List.append_assoc]

theorem Yields.tryCatch_ok {x : Audit α} {a : α} (handle : Failure → Audit α)
    (hx : Yields x (.ok a) ms) : Yields (MonadExcept.tryCatch x handle) (.ok a) ms := by
  intro log
  rw [ExceptT.run_tryCatch, StateT.run_bind, hx log]
  rfl

end FlagAudit
