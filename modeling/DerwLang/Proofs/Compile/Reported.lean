/-
**What a compiler reports over a run of calls.**

A compiler is called any number of times, to compile one source or to check one. All that a call does is said once
(`perform_eq`): it answers what its source comes to, and enters what there is to say about that source. From there a whole
run is read off (`run_eq`), and with it what ties answers and entries together:

* `failed_iff_entries`: a call fails if and only if it enters an error;
* `run_call`: earlier entries stay, each call adds those of its own source, earlier calls leave no trace in an answer, and
  there are errors among the entries exactly when some call has failed.
-/

import DerwLang.Compiler.Run
import Mathlib.Logic.Basic

namespace DerwLang

/-- What there is to say about a module: the errors that reading met, with their lines, or else the problems with its
types, at the level that they are taken at. -/
def Module.entries (module : Module) (level : Level) : List Diagnostic :=
  if module.errors = [] then module.problems.map fun message => ⟨message, level, none⟩
  else module.errors.map fun error => ⟨error.message, .error, some error.line⟩

namespace Module

variable (module : Module)

theorem entries_eq_nil_iff (level : Level) : module.entries level = [] ↔ module.errors = [] ∧ module.problems = [] := by
  by_cases clean : module.errors = [] <;> simp [entries, clean]

/-- Problems with types alone make no error of a warning. -/
theorem exists_error_iff (level : Level) :
    (∃ entry ∈ module.entries level, entry.level = .error) ↔
      module.errors ≠ [] ∨ (level = .error ∧ module.problems ≠ []) := by
  by_cases clean : module.errors = []
  · rw [entries, if_pos clean]
    constructor
    · rintro ⟨entry, among, severe⟩
      obtain ⟨message, problem, rfl⟩ := List.mem_map.mp among
      exact .inr ⟨severe, List.ne_nil_of_mem problem⟩
    · rintro (unclean | ⟨severe, problems⟩)
      · exact absurd clean unclean
      · obtain ⟨message, problem⟩ := List.exists_mem_of_ne_nil _ problems
        exact ⟨_, List.mem_map_of_mem problem, severe⟩
  · rw [entries, if_neg clean]
    obtain ⟨error, among⟩ := List.exists_mem_of_ne_nil _ clean
    exact iff_of_true ⟨_, List.mem_map_of_mem among, rfl⟩ (.inl clean)

end Module

namespace Compiler

/-! ### Calls -/

/-- What a compiler is asked for. -/
inductive Call
  | compile (source : SourceFile)
  | check (source : SourceFile)

/-- What a compiler answers. -/
inductive Answer
  | compiled (result : Except CompileError Compilation)
  | checked (result : Except CompileError Module)

/-- The answer is a failure. -/
def Answer.Failed : Answer → Prop
  | .compiled result => result.isOk = false
  | .checked result => result.isOk = false

/-- What a call comes to for a target. -/
def Call.answer (target : Target) : Call → Answer
  | .compile source =>
    .compiled (if source.parse.errors = [] then .ok ⟨source.parse, target.generate source.parse⟩ else .error .parsing)
  | .check source =>
    .checked (if source.parse.errors = [] then if source.parse.problems = [] then .ok source.parse else .error .typing
      else .error .parsing)

/-- What a call says about its source: problems with types are warnings when it is compiled, and errors when it is
checked. -/
def Call.entries : Call → List Diagnostic
  | .compile source => source.parse.entries .warning
  | .check source => source.parse.entries .error

/-- The answer to a call, and the compiler after it. -/
def perform (compiler : Compiler) : Call → Answer × Compiler
  | .compile source => ((.compiled (compiler.compile source).1), (compiler.compile source).2)
  | .check source => ((.checked (compiler.check source).1), (compiler.check source).2)

/-- The answers to calls one after the other, and the compiler after them. -/
def run (compiler : Compiler) : List Call → List Answer × Compiler
  | [] => ([], compiler)
  | call :: later =>
    ((compiler.perform call).1 :: ((compiler.perform call).2.run later).1, ((compiler.perform call).2.run later).2)

/-! ### One call -/

section Step

variable (compiler : Compiler) (source : SourceFile)

theorem compile_eq :
    compiler.compile source =
      (if source.parse.errors = [] then .ok ⟨source.parse, compiler.target.generate source.parse⟩ else .error .parsing,
        compiler.report ⟨source.parse.entries .warning⟩) := by
  unfold compile read
  by_cases clean : source.parse.errors = []
  · simp [clean, Module.entries, Module.check, Diagnostics.asWarnings, Function.comp_def]
  · simp [clean, Module.entries, Diagnostics.ofParseErrors, Diagnostics.ofMessages, Function.comp_def]

theorem check_eq :
    compiler.check source =
      (if source.parse.errors = [] then if source.parse.problems = [] then .ok source.parse else .error .typing
        else .error .parsing,
        compiler.report ⟨source.parse.entries .error⟩) := by
  unfold check read
  by_cases clean : source.parse.errors = []
  · simp [clean, Module.entries, Module.check, Diagnostics.isEmpty]
  · simp [clean, Module.entries, Diagnostics.ofParseErrors, Diagnostics.ofMessages, Function.comp_def]

/-- **All that a call does.** -/
theorem perform_eq (call : Call) :
    compiler.perform call = (call.answer compiler.target, compiler.report ⟨call.entries⟩) := by
  cases call with
  | compile source => simp [perform, compile_eq, Call.answer, Call.entries]
  | check source => simp [perform, check_eq, Call.answer, Call.entries]

end Step

/-- **A call fails if and only if there is an error among its entries.** -/
theorem failed_iff_entries (target : Target) (call : Call) :
    (call.answer target).Failed ↔ ∃ entry ∈ call.entries, entry.level = .error := by
  cases call with
  | compile source =>
    rw [Call.entries, Module.exists_error_iff]
    by_cases clean : source.parse.errors = [] <;> simp [Call.answer, Answer.Failed, clean, Except.isOk, Except.toBool]
  | check source =>
    rw [Call.entries, Module.exists_error_iff]
    by_cases clean : source.parse.errors = []
    · by_cases sound : source.parse.problems = [] <;>
        simp [Call.answer, Answer.Failed, clean, sound, Except.isOk, Except.toBool]
    · simp [Call.answer, Answer.Failed, clean, Except.isOk, Except.toBool]

/-- Reporting leaves the diagnostics alone only if there is nothing to report. -/
theorem diagnostics_report (compiler : Compiler) (entries : List Diagnostic) :
    (compiler.report ⟨entries⟩).diagnostics = compiler.diagnostics ↔ entries = [] := by
  constructor
  · intro same
    exact List.append_right_eq_self.mp (congrArg Diagnostics.entries same)
  · rintro rfl
    simp [report, Diagnostics.append]

/-- **A source passes a check if and only if it compiles with nothing to say about it.** -/
theorem check_isOk_iff (compiler : Compiler) (source : SourceFile) :
    (compiler.check source).1.isOk = true ↔
      (compiler.compile source).1.isOk = true ∧ (compiler.compile source).2.diagnostics = compiler.diagnostics := by
  rw [check_eq, compile_eq, diagnostics_report, Module.entries_eq_nil_iff]
  by_cases clean : source.parse.errors = []
  · by_cases sound : source.parse.problems = [] <;> simp [clean, sound, Except.isOk, Except.toBool]
  · simp [clean, Except.isOk, Except.toBool]

/-! ### Runs -/

/-- **All that a run of calls does.** -/
theorem run_eq (compiler : Compiler) (calls : List Call) :
    compiler.run calls =
      (calls.map (Call.answer compiler.target), compiler.report ⟨calls.flatMap Call.entries⟩) := by
  induction calls generalizing compiler with
  | nil => simp [run, report, Diagnostics.append]
  | cons call later step =>
    rw [run, perform_eq, step]
    simp [report, Diagnostics.append, List.append_assoc]

/-- A compiler that has not been called yet. -/
def fresh (target : Target) : Compiler :=
  ⟨target, .empty⟩

/-- There is an error among the entries if and only if some call has failed. -/
theorem hasErrors_run (target : Target) (calls : List Call) :
    ((fresh target).run calls).2.diagnostics.hasErrors = true ↔ ∃ answer ∈ ((fresh target).run calls).1, answer.Failed := by
  rw [run_eq]
  calc (report (fresh target) ⟨calls.flatMap Call.entries⟩).diagnostics.hasErrors = true
      ↔ ∃ call ∈ calls, ∃ entry ∈ call.entries, entry.level = .error := by
        simp [report, fresh, Diagnostics.append, Diagnostics.empty, Diagnostics.hasErrors]
    _ ↔ ∃ call ∈ calls, (call.answer target).Failed := by simp only [failed_iff_entries]
    _ ↔ ∃ answer ∈ calls.map (Call.answer target), answer.Failed := by
        simp only [List.mem_map, exists_exists_and_eq_and]

/-- **What one more call adds to a run.** The entries so far stay as they are, and behind them come those of the call's own
source, which the compiler has no part in. The answer is the one that a new compiler gives. There are errors among the
entries exactly when some call so far has failed. And at this point as at any other, a source passes a check if and only if
it compiles and nothing is entered. -/
theorem run_call (target : Target) (earlier : List Call) (call : Call) :
    let before := (fresh target).run earlier
    let after := (fresh target).run (earlier ++ [call])
    after.2.diagnostics.entries = before.2.diagnostics.entries ++ call.entries ∧
      after.1 = before.1 ++ [((fresh target).perform call).1] ∧
      (after.2.diagnostics.hasErrors = true ↔ ∃ answer ∈ after.1, answer.Failed) ∧
      ∀ source, (after.2.check source).1.isOk = true ↔
        (after.2.compile source).1.isOk = true ∧ (after.2.compile source).2.diagnostics = after.2.diagnostics := by
  refine ⟨?_, ?_, hasErrors_run target _, check_isOk_iff _⟩
  · rw [run_eq, run_eq]
    simp [report, Diagnostics.append]
  · rw [run_eq, run_eq, perform_eq]
    simp [fresh]

end Compiler

end DerwLang
