import TemporalMonitor.Proofs.Parallel

/-!
# Batches one after the other

A monitor is used for one batch after the other, by monitoring, in parallel or by tracing, and a
batch may be aborted by a failure. The reset at its beginning makes a batch independent of the
statistics that it finds (`batch_eq_batch`), and no batch changes the oracle. So a batch reports the
same whatever came before it (`reports_of_history`).
-/

namespace TemporalMonitor

namespace Monitor

open Relation

variable {ε ω : Type}

/-- The monitors that some batches, one after the other, make of `m₀`. -/
inductive History (m₀ : Monitor) : Monitor → Prop
  | start : History m₀ m₀
  | run {m : Monitor} {ε : Type} (h : History m₀ m) (sources : List (Source ε)) :
      History m₀ (m.afterBatch (m.run sources))
  | parallel {m : Monitor} {ε : Type} (h : History m₀ m) {sources : List (Source ε)} {s : Pool ε}
      (hreach : ReflTransGen (Pool.Step m) (.start m sources) s) (hended : s.Ended) :
      History m₀ { m with statistics := { s.statistics with running := false } }
  | traces {m : Monitor} {ε ω : Type} (h : History m₀ m)
      (items : List (Observer ω × (ω → Source ε))) (world : ω) :
      History m₀ (m.afterBatch (m.traces items world).1)

/-- No batch changes the oracle. -/
theorem History.oracle_eq {m₀ m : Monitor} (h : History m₀ m) : m.oracle = m₀.oracle := by
  induction h with
  | start => rfl
  | run _ sources ih => exact ih
  | parallel _ hreach hended ih => exact ih
  | traces _ items world ih => exact ih

/-- A batch does not depend on the statistics that it finds. -/
theorem batch_eq_batch {α : Type} (m m₀ : Monitor) (word : String)
    (perform : Statistics → α → ω → Performance ε × ω) (items : List α) (world : ω) :
    m.batch word perform items world = m₀.batch word perform items world := by
  simp only [batch, Statistics.reset_eq]

theorem run_eq_of_oracle_eq {m₀ m : Monitor} (h : m.oracle = m₀.oracle)
    (sources : List (Source ε)) : m.run sources = m₀.run sources := by
  rw [run, batch_eq_batch m m₀]
  simp only [run, performSource, h]

theorem traces_eq_of_oracle_eq {m₀ m : Monitor} (h : m.oracle = m₀.oracle)
    (items : List (Observer ω × (ω → Source ε))) (world : ω) :
    m.traces items world = m₀.traces items world := by
  rw [traces, batch_eq_batch m m₀]
  simp only [traces, h]

/-- **Batches are exact and independent.** Whatever batches a monitor has been used for, the next
one counts the runs before its first failure, reports this failure, and leaves the oracle as it
was. -/
theorem reports_of_history {m₀ m : Monitor} (h : History m₀ m) :
    (∀ sources : List (Source ε), sources.length < UInt32.size →
      (m.run sources).Reports m₀.oracle.guarantees.length
          (sources.map fun source ↦ (source.experiment m₀.oracle).outcome) ∧
        m.run sources = m₀.run sources ∧
        m.afterBatch (m.run sources) = ⟨m₀.oracle, (m.run sources).statistics⟩) ∧
      ∀ (items : List (Observer ω × (ω → Source ε))) (world : ω), items.length < UInt32.size →
        (m.traces items world).1.Reports m₀.oracle.guarantees.length
            (results m₀.performTraced { running := true } items world) ∧
          m.traces items world = m₀.traces items world ∧
          m.afterBatch (m.traces items world).1 =
            ⟨m₀.oracle, (m.traces items world).1.statistics⟩ := by
  refine ⟨fun sources hsize ↦ ?_, fun items world hsize ↦ ?_⟩
  · have hrun := run_eq_of_oracle_eq h.oracle_eq sources
    exact ⟨hrun ▸ m₀.reports_run hsize, hrun, congrArg (Monitor.mk · _) h.oracle_eq⟩
  · have htraces := traces_eq_of_oracle_eq h.oracle_eq items world
    exact ⟨htraces ▸ m₀.reports_traces world hsize, htraces, congrArg (Monitor.mk · _) h.oracle_eq⟩

/-- After a batch that was aborted, a batch of one failed run. -/
theorem reports_of_history_aborted :
    let m₀ : Monitor := { oracle := .ofFormulas [] [.var 0] }
    let violated : Source String := .ofStates [[some false]]
    let unreadable : Source String := { states := [], failure := some "unreadable" }
    let m := m₀.afterBatch (m₀.run [violated, violated, unreadable])
    m₀.History m ∧ m.statistics = { failures := 2, violations := [2] } ∧
      (m.run [violated]).Reports 1 [.ok (.verified [false])] := by
  intro m₀ violated unreadable m
  have hhistory : m₀.History m := .run .start _
  have hreports := (reports_of_history (ω := Unit) hhistory).1 [violated] (by decide)
  exact ⟨hhistory, by decide, hreports.1⟩

end Monitor

end TemporalMonitor
